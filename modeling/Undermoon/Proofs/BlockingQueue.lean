import Undermoon.Proxy.Blocking
import Undermoon.Lib.Threads

/-!
# The blocking queue strands no command and passes none twice

Three facts hold in every state of a `TaskBlockingQueue` and carry the
result:

* *accounted*: the commands passed to `blocking_task_sender`, those a
  `release_all` has taken off the channel and holds, and those on the
  channel are, as a multiset, the commands pushed. Every step moves a
  command along that line or pushes a new one at the end.
* *count*: the blocking count is the number of live handles, so the drop
  of a handle never takes it below zero.
* *watched*: once the count is zero, the channel is empty, or a
  `release_all` is running, or a `send` has pushed and not yet looked at
  the state again. This is where the second load in `send` earns its keep:
  a push that races with the drop of the last handle leaves its `send` at
  `recheck`, and that `send` finds the count zero and releases the channel.

With nothing in progress and the count zero, *watched* leaves only the
empty channel, and *accounted* then says that every command pushed has
been passed on exactly once.
-/

namespace Undermoon

namespace BlockingQueue

variable {T : Type}

/-- The commands the `release_all` loops have taken and not passed on. -/
def held (s : BlockingQueue T) : List T := s.releases.filterMap id

/-- The invariant of a queue. -/
structure BlockingInv (s : BlockingQueue T) : Prop where
  accounted : (s.released ++ s.held ++ s.queue).Perm s.pushed
  count_eq : s.blockingCount = s.handles
  watched : s.blockingCount = 0 → s.queue = [] ∨ s.releases ≠ [] ∨ SendPc.recheck ∈ s.sends

theorem blockingInv_new : BlockingInv (new : BlockingQueue T) :=
  ⟨List.Perm.refl _, rfl, fun _ => .inl rfl⟩

@[simp] theorem held_startRelease (s : BlockingQueue T) : s.startRelease.held = s.held := by
  simp [held, startRelease]

/-- A new `release_all` watches the queue whatever the calls of `send` do. -/
theorem BlockingInv.of_startRelease {s : BlockingQueue T}
    (hacc : (s.released ++ s.held ++ s.queue).Perm s.pushed) (hcount : s.blockingCount = s.handles) :
    BlockingInv s.startRelease :=
  ⟨by rw [held_startRelease]; exact hacc, hcount, fun _ => .inr (.inl (by simp [startRelease]))⟩

/-- A step that moves only the calls of `send`, the histories outside the
channel and the term keeps the invariant, as long as every `recheck` stays. -/
theorem BlockingInv.of_frame {s s' : BlockingQueue T} (h : BlockingInv s)
    (hq : s'.queue = s.queue) (hr : s'.releases = s.releases) (hp : s'.pushed = s.pushed)
    (hd : s'.released = s.released) (hc : s'.blockingCount = s.blockingCount)
    (hh : s'.handles = s.handles) (hkeep : SendPc.recheck ∈ s.sends → SendPc.recheck ∈ s'.sends) :
    BlockingInv s' := by
  have hheld : s'.held = s.held := by rw [held, held, hr]
  refine ⟨by rw [hheld, hq, hp, hd]; exact h.accounted, by rw [hc, hh]; exact h.count_eq, fun h0 => ?_⟩
  rw [hc] at h0
  rcases h.watched h0 with hq' | hr' | hm
  · exact .inl (hq.trans hq')
  · exact .inr (.inl (hr ▸ hr'))
  · exact .inr (.inr (hkeep hm))

section Step

variable {s s' : BlockingQueue T}

theorem BlockingInv.sendStep {i : Nat} (h : BlockingInv s) (hs : s.sendStep i = some s') :
    BlockingInv s' := by
  unfold BlockingQueue.sendStep at hs
  split at hs
  · cases hs
  · next t hint hget =>
      -- the call leaves `load`: every `recheck` stays where it was
      have hkeep : ∀ sends' : List (SendPc T), (∀ x ∈ s.sends, x ≠ .load t hint → x ∈ sends') →
          SendPc.recheck ∈ s.sends → SendPc.recheck ∈ sends' :=
        fun _ hx hm => hx _ hm (by simp)
      split_ifs at hs <;> cases hs
      · exact h.of_frame rfl rfl rfl rfl rfl rfl
          (hkeep _ fun _ hx hne => List.mem_set_of_ne hget hx hne _)
      all_goals
        exact h.of_frame rfl rfl rfl rfl rfl rfl
          (hkeep _ fun _ hx hne => List.mem_eraseIdx_of_ne hget hx hne)
  · next t hget =>
      cases hs
      refine ⟨?_, h.count_eq, fun _ => .inr (.inr (List.mem_set_of_getElem? hget _))⟩
      rw [← List.append_assoc]
      exact h.accounted.append_right [t]
  · next hget =>
      cases hs
      split_ifs with hb
      · -- still blocking: the count is not zero, so nothing needs watching
        simp only [blocking, decide_eq_true_eq] at hb
        exact ⟨h.accounted, h.count_eq, fun hc => absurd hc (Nat.pos_iff_ne_zero.mp hb)⟩
      · exact BlockingInv.of_startRelease h.accounted h.count_eq

theorem BlockingInv.releaseStep {i : Nat} (h : BlockingInv s) (hs : s.releaseStep i = some s') :
    BlockingInv s' := by
  unfold BlockingQueue.releaseStep at hs
  split at hs
  · cases hs
  · next hget =>
      have hset := fun t : T => List.filterMap_set_perm id hget (some t)
      split at hs
      · next hq =>
          -- an empty channel ends the loop, which held nothing
          cases hs
          have herase := List.filterMap_eraseIdx_perm id hget
          simp only [id_eq, Option.toList_none, List.append_nil] at herase
          refine ⟨?_, h.count_eq, fun _ => .inl hq⟩
          exact ((herase.append_left _).append_right _).trans h.accounted
      · next t queue hq =>
          -- a `try_recv` moves the head of the channel into the loop
          cases hs
          have ht := hset t
          simp only [id_eq, Option.toList_none, Option.toList_some, List.append_nil] at ht
          refine ⟨?_, h.count_eq, fun _ => .inr (.inl (by simp [List.ne_nil_of_mem (List.mem_of_getElem? hget)]))⟩
          calc List.Perm (s.released ++ (s.releases.set i (some t)).filterMap id ++ queue)
                (s.released ++ (s.held ++ [t]) ++ queue) := (ht.append_left _).append_right _
              _ = s.released ++ s.held ++ s.queue := by simp [hq]
              List.Perm _ s.pushed := h.accounted
  · next t hget =>
      -- the command held is passed to `blocking_task_sender`
      cases hs
      have ht := List.filterMap_set_perm id hget none
      simp only [id_eq, Option.toList_none, Option.toList_some, List.append_nil] at ht
      refine ⟨?_, h.count_eq, fun _ => .inr (.inl (by simp [List.ne_nil_of_mem (List.mem_of_getElem? hget)]))⟩
      calc s.released ++ [t] ++ (s.releases.set i none).filterMap id ++ s.queue
          _ = s.released ++ ([t] ++ (s.releases.set i none).filterMap id) ++ s.queue := by simp
          List.Perm _ (s.released ++ s.held ++ s.queue) :=
            ((List.perm_append_comm.trans ht).append_left _).append_right _
          List.Perm _ s.pushed := h.accounted

theorem BlockingInv.of_step {op : BlockingOp T} (h : BlockingInv s) (hs : step op s = some s') :
    BlockingInv s' := by
  cases op with
  | callSend t hint =>
      cases hs
      exact h.of_frame rfl rfl rfl rfl rfl rfl fun hm => List.mem_append_left _ hm
  | send i => exact h.sendStep hs
  | startBlocking =>
      cases hs
      exact ⟨h.accounted, by simp [h.count_eq], fun hc => absurd hc (by simp)⟩
  | dropHandle =>
      simp only [step] at hs
      split_ifs at hs with h0 h1 <;> cases hs
      · exact BlockingInv.of_startRelease h.accounted (by simp [h.count_eq])
      · -- not the last handle: the count stays above zero
        refine ⟨h.accounted, by simp [h.count_eq], fun hc => ?_⟩
        have := h.count_eq
        simp only at hc
        omega
  | stopBlocking =>
      cases hs
      exact BlockingInv.of_startRelease h.accounted h.count_eq
  | release i => exact h.releaseStep hs

end Step

theorem Reachable.blockingInv {s : BlockingQueue T} (hr : s.Reachable) : BlockingInv s :=
  Machine.Reachable.invariant BlockingInv blockingInv_new (fun _ _ _ h hs => h.of_step hs) hr

/-- No command is passed to `blocking_task_sender` twice, every command
pushed is passed, held by a `release_all` or still on the channel, and once
the count is zero with nothing in progress the channel is empty and every
command pushed has been passed exactly once. -/
theorem releases_each_pushed_once {s : BlockingQueue T} (hr : s.Reachable) :
    s.released.Subperm s.pushed ∧
    (s.released ++ s.held ++ s.queue).Perm s.pushed ∧
    (s.blockingCount = 0 → s.sends = [] → s.releases = [] →
      s.queue = [] ∧ s.released.Perm s.pushed) := by
  have h := hr.blockingInv
  refine ⟨?_, h.accounted, fun hc hsends hrel => ?_⟩
  · exact ((List.sublist_append_left _ _).trans (List.sublist_append_left _ _)).subperm.trans
      h.accounted.subperm
  · have hq : s.queue = [] := by
      rcases h.watched hc with hq | hr | hm
      · exact hq
      · exact absurd hrel hr
      · simp [hsends] at hm
    have hheld : s.held = [] := by simp [held, hrel]
    refine ⟨hq, ?_⟩
    simpa [hq, hheld] using h.accounted

/-- The drop of the last handle races with a `send` that has found the
queue blocking: the `release_all` of the drop finds the channel empty, and
the second load in `send` releases the command pushed after it. -/
def raceRun : List (BlockingOp Nat) :=
  [.startBlocking, .callSend 7 .notBlocking, .send 0, .dropHandle, .release 0,
    .send 0, .send 0, .release 0, .release 0, .release 0]

theorem releases_each_pushed_once_raceRun :
    ∃ s, Machine.run step raceRun (new : BlockingQueue Nat) = some s ∧
      s.blockingCount = 0 ∧ s.sends = [] ∧ s.releases = [] ∧ s.queue = [] ∧ s.released.Perm s.pushed := by
  have hrun : Machine.run step raceRun (new : BlockingQueue Nat) =
      some ⟨0, 2, 0, [], [], [], [7], [7], [], []⟩ := rfl
  refine ⟨_, hrun, rfl, rfl, rfl, ?_⟩
  exact (releases_each_pushed_once (Machine.reachable_of_run hrun)).2.2 rfl rfl rfl

end BlockingQueue

end Undermoon

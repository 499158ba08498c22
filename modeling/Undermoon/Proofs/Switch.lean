import Undermoon.Migration.Switch

/-!
# What the switch handshake keeps in step

The destination follows the source only as far as the requests it handles
are the source's current one. A request resent on a new client leaves the
first copy in flight, and when that copy arrives after the source has moved
on, `handle_switch` sets the destination back to an older phase: a PRECHECK
that arrives while the source is scanning puts the destination in
`PreCheck`, and from then on each side redirects the range's commands to the
other.

Over a connection that loses nothing, where the source sends again only once
the previous request has been answered, the destination is always where the
source's phase allows (`InStep`), and it never redirects while the source
does (`serial_no_redirection_loop`).
-/

namespace Undermoon

namespace SwitchState

/-! ## A stale request -/

/-- PRECHECK sent twice, the second copy handled and answered first; after
PRESWITCH has been acknowledged, the first copy arrives. -/
def stalePreCheck : List SwitchOp :=
  [.send, .send, .deliver 1 true, .reply 0, .blockingDone,
    .send, .deliver 1 true, .reply 0, .deliver 0 true]

theorem stale_precheck_redirection_loop :
    Machine.run step stalePreCheck init = some ⟨.scanning, .preCheck, [], [(.preCheck, true)]⟩ ∧
    ∃ s : SwitchState, s.Reachable ∧ s.src.migratingRedirects = true ∧
      s.dst.importingRedirects = true := by
  have hrun : Machine.run step stalePreCheck init =
      some ⟨.scanning, .preCheck, [], [(.preCheck, true)]⟩ := rfl
  exact ⟨hrun, _, Machine.reachable_of_run hrun, rfl, rfl⟩

/-! ## One request at a time -/

/-- The handshake over one connection that loses no request: the source
sends only when nothing is in flight. -/
def stepSerial : SwitchOp → SwitchState → Option SwitchState
  | .send, s => if s.requests = [] ∧ s.replies = [] then step .send s else none
  | op, s => step op s

/-- The destination phases that a source phase allows. -/
def allowed : MigrationState → MigrationState → Bool
  | .preCheck, d | .preBlocking, d => d == .preCheck
  | .preSwitch, d => d == .preCheck || d == .preSwitch
  | .scanning, d => d == .preSwitch
  | .finalSwitch, d => d == .preSwitch || d == .switchCommitted
  | .switchCommitted, d => d == .switchCommitted

theorem allowed_target {src : MigrationState} {c : MgrSubCmd} (h : src.request = some c) :
    allowed src c.target = true := by
  cases src <;> cases h <;> rfl

theorem allowed_acknowledged {src : MigrationState} {c : MgrSubCmd} (h : src.request = some c) :
    allowed src.acknowledged c.target = true := by
  cases src <;> cases h <;> rfl

theorem not_importingRedirects {src dst : MigrationState} (h : allowed src dst = true)
    (hsrc : src.migratingRedirects = true) : dst.importingRedirects = false := by
  revert h hsrc
  cases src <;> cases dst <;> decide

/-- At most one message in flight, and it belongs to the source's phase; an
accepted request has set the destination to its target. -/
structure InStep (s : SwitchState) : Prop where
  inFlight : s.requests.length + s.replies.length ≤ 1
  requests_current : ∀ c ∈ s.requests, s.src.request = some c
  replies_current : ∀ c ok, (c, ok) ∈ s.replies → s.src.request = some c ∧ (ok = true → s.dst = c.target)
  phase : allowed s.src s.dst = true

theorem inStep_init : InStep init :=
  ⟨by decide, (fun _ h => nomatch h), (fun _ _ h => nomatch h), rfl⟩

/-- A phase without a request has nothing in flight. -/
theorem InStep.quiet {s : SwitchState} (h : InStep s) (hq : s.src.request = none) :
    s.requests = [] ∧ s.replies = [] := by
  constructor
  · rcases hr : s.requests with _ | ⟨c, _⟩
    · rfl
    · have := h.requests_current c (by rw [hr]; exact List.mem_cons_self)
      rw [hq] at this
      cases this
  · rcases hr : s.replies with _ | ⟨⟨c, ok⟩, _⟩
    · rfl
    · have := (h.replies_current c ok (by rw [hr]; exact List.mem_cons_self)).1
      rw [hq] at this
      cases this

theorem InStep.deliver {s s' : SwitchState} {i : Nat} {accepted : Bool} (h : InStep s)
    (hs : step (.deliver i accepted) s = some s') : InStep s' := by
  simp only [step, Option.map_eq_some_iff] at hs
  obtain ⟨c, hc, rfl⟩ := hs
  -- the only message in flight is request `i`
  have hlen : s.requests.length = 1 ∧ s.replies = [] := by
    have := (List.getElem?_eq_some_iff.mp hc).1
    have h1 := h.inFlight
    exact ⟨by omega, List.eq_nil_of_length_eq_zero (by omega)⟩
  have hi : i < 1 := hlen.1 ▸ (List.getElem?_eq_some_iff.mp hc).1
  have hnil : s.requests.eraseIdx i = [] :=
    List.eraseIdx_eq_nil_iff.mpr (Or.inr ⟨hlen.1, by omega⟩)
  have hcur := h.requests_current c (List.mem_of_getElem? hc)
  refine ⟨by simp [hnil, hlen.2], fun c' hc' => ?_, ?_, ?_⟩
  · rw [hnil] at hc'
    exact absurd hc' List.not_mem_nil
  · intro c' ok hmem
    rw [hlen.2, List.nil_append, List.mem_singleton, Prod.mk.injEq] at hmem
    obtain ⟨rfl, rfl⟩ := hmem
    exact ⟨hcur, fun hok => by simp [hok]⟩
  · cases accepted
    · exact h.phase
    · exact allowed_target hcur

theorem InStep.reply {s s' : SwitchState} {i : Nat} (h : InStep s)
    (hs : step (.reply i) s = some s') : InStep s' := by
  simp only [step, Option.map_eq_some_iff] at hs
  obtain ⟨⟨c, ok⟩, hc, rfl⟩ := hs
  have hlen : s.replies.length = 1 ∧ s.requests = [] := by
    have := (List.getElem?_eq_some_iff.mp hc).1
    have h1 := h.inFlight
    exact ⟨by omega, List.eq_nil_of_length_eq_zero (by omega)⟩
  have hi : i < 1 := hlen.1 ▸ (List.getElem?_eq_some_iff.mp hc).1
  have hnil : s.replies.eraseIdx i = [] :=
    List.eraseIdx_eq_nil_iff.mpr (Or.inr ⟨hlen.1, by omega⟩)
  obtain ⟨hcur, hdst⟩ := h.replies_current c ok (List.mem_of_getElem? hc)
  refine ⟨by simp [hnil, hlen.2], fun c' hc' => ?_, fun c' ok' hc' => ?_, ?_⟩
  · rw [hlen.2] at hc'
    exact absurd hc' List.not_mem_nil
  · rw [hnil] at hc'
    exact absurd hc' List.not_mem_nil
  · dsimp only
    by_cases hok : ok = true ∧ s.src.request = some c
    · rw [if_pos hok, hdst hok.1]
      exact allowed_acknowledged hcur
    · rw [if_neg hok]
      exact h.phase

theorem InStep.of_stepSerial {op : SwitchOp} {s s' : SwitchState} (h : InStep s)
    (hs : stepSerial op s = some s') : InStep s' := by
  cases op with
  | send =>
      simp only [stepSerial] at hs
      split at hs
      · next hq =>
          simp only [step, Option.map_eq_some_iff] at hs
          obtain ⟨c, hc, rfl⟩ := hs
          refine ⟨by simp [hq.1, hq.2], fun c' hc' => ?_, fun c' ok hc' => ?_, h.phase⟩
          · rw [hq.1, List.nil_append, List.mem_singleton] at hc'
            rw [hc', hc]
          · rw [hq.2] at hc'
            exact absurd hc' List.not_mem_nil
      · cases hs
  | deliver i accepted => exact h.deliver hs
  | reply i => exact h.reply hs
  | blockingDone =>
      simp only [stepSerial, step] at hs
      split at hs
      · next hsrc =>
          cases hs
          obtain ⟨hreq, hrep⟩ := h.quiet (by rw [hsrc]; rfl)
          have hdst : s.dst = .preCheck := by
            have := h.phase
            rw [hsrc] at this
            exact beq_iff_eq.mp this
          exact ⟨by simp [hreq, hrep], fun c hc => by simp [hreq] at hc,
            fun c ok hc => by simp [hrep] at hc, by simp [hdst, allowed]⟩
      · cases hs
  | scanDone =>
      simp only [stepSerial, step] at hs
      split at hs
      · next hsrc =>
          cases hs
          obtain ⟨hreq, hrep⟩ := h.quiet (by rw [hsrc]; rfl)
          have hdst : s.dst = .preSwitch := by
            have := h.phase
            rw [hsrc] at this
            exact beq_iff_eq.mp this
          exact ⟨by simp [hreq, hrep], fun c hc => by simp [hreq] at hc,
            fun c ok hc => by simp [hrep] at hc, by simp [hdst, allowed]⟩
      · cases hs

/-- Over a connection that loses no request, the destination never sends the
range back while the source sends it over. -/
theorem serial_no_redirection_loop {s : SwitchState} (h : Machine.Reachable stepSerial init s)
    (hsrc : s.src.migratingRedirects = true) : s.dst.importingRedirects = false :=
  not_importingRedirects
    (h.invariant InStep inStep_init (fun _ _ _ hinv hs => hinv.of_stepSerial hs)).phase hsrc

end SwitchState

end Undermoon

import AgentGovernance.Lifecycle

/-!
# Failed operations on agents

The state is changed by the last part of an operation only, and only when that part succeeds. So a
call that ends in a failure has changed nothing, whether a check failed before or after a request, a
collaborator failed or the deadline passed.
-/
namespace AgentGovernance.Lifecycle

variable {m : Lifecycle}

/-- A part of an operation finishes it, or leaves the state as it was and publishes nothing. -/
def Settles (m : Lifecycle) (o : Outcome Lifecycle Progress) : Prop :=
  (∃ r, o.result = .ok (.finished r)) ∨ o.state = m ∧ o.published = []

namespace Settles

theorem unfinished {o : Outcome Lifecycle Progress} (h : Settles m o)
    (hopen : ∀ r, o.result ≠ .ok (.finished r)) : o.state = m ∧ o.published = [] :=
  h.resolve_left fun ⟨r, hr⟩ => hopen r hr

theorem finish (n : Lifecycle) (r : Result) (published : List Event) :
    Settles m (n.finish r published) := .inl ⟨r, rfl⟩

theorem wait (c : Call) : Settles m (m.wait c) := .inr ⟨rfl, rfl⟩

theorem refuse (f : Failure) : Settles m (.refuse m f) := .inr ⟨rfl, rfl⟩

theorem checked {α : Type} {check : Except Failure α} {next : α → Outcome Lifecycle Progress}
    (h : ∀ a, Settles m (next a)) : Settles m (m.checked check next) := by
  cases check with
  | ok a => exact h a
  | error f => exact refuse f

theorem start (tick : Nat) (now : Instant) (o : Operation) : Settles m (m.start tick now o) := by
  cases o with
  | spawn constraints => exact wait _
  | attach id plugin => exact checked fun _ => wait _
  | execute id intent =>
      apply checked
      intro e
      unfold startExecution
      split
      · exact refuse _
      · split
        · exact wait _
        · exact wait _
  | snapshot id => exact checked fun _ => wait _
  | recover id => exact checked fun _ => wait _
  | terminate id =>
      apply checked
      intro a
      unfold startTermination
      split
      · exact finish _ _ _
      · exact wait _
  | pause id => exact checked fun _ => finish _ _ _
  | resume id => exact checked fun _ => finish _ _ _

theorem resume (fresh : Uuid) (now : Instant) (c : Call) (reply : c.request.Reply) :
    Settles m (m.resume fresh now c reply) := by
  cases c with
  | spawning constraints =>
      cases reply with
      | ok handle => exact finish _ _ _
      | error e => exact refuse _
  | attaching id handle plugin =>
      cases reply with
      | ok capabilities => exact checked fun _ => finish _ _ _
      | error e => exact refuse _
  | judging e agreement =>
      cases reply with
      | ok d =>
          change Settles m (m.judged e d)
          unfold judged
          split
          · exact wait _
          · exact refuse _
      | error f => exact refuse _
  | executing e =>
      cases reply with
      | ok result => exact checked fun _ => finish _ _ _
      | error f => exact refuse _
  | snapshotting id handle =>
      cases reply with
      | ok s => exact checked fun _ => finish _ _ _
      | error e => exact refuse _
  | recovering s =>
      cases reply with
      | ok handle => exact finish _ _ _
      | error e => exact refuse _
  | terminating id handle =>
      cases reply with
      | ok done => exact checked fun _ => finish _ _ _
      | error e =>
          cases e with
          | handleNotFound name => exact checked fun _ => finish _ _ _
          | spawnFailed | executionFailed | snapshotFailed | recoverFailed | terminationFailed
          | unreachable => exact refuse _

end Settles

/-- What a call comes to when nothing runs while it waits. It may be told anything in reply, any
number of times, and its deadline, if it has one, may pass while it waits. -/
inductive Concludes : Outcome Lifecycle Progress → Outcome Lifecycle Result → Prop
  | finished {o : Outcome Lifecycle Progress} {r : Result} : o.result = .ok (.finished r) →
      Concludes o ⟨o.state, o.published, .ok r⟩
  | failed {o : Outcome Lifecycle Progress} {f : Failure} : o.result = .error f →
      Concludes o ⟨o.state, o.published, .error f⟩
  | missed {o : Outcome Lifecycle Progress} {c : Call} : o.result = .ok (.waiting c) →
      c.deadline?.isSome = true →
      Concludes o ⟨o.state, o.published, .error (.timeout (.missed "execute" .whileRunning))⟩
  | replied {o : Outcome Lifecycle Progress} {c : Call} {x : Outcome Lifecycle Result}
      (reply : c.request.Reply) (fresh : Uuid) (now : Instant) : o.result = .ok (.waiting c) →
      Concludes (o.state.resume fresh now c reply) x →
      Concludes o ⟨x.state, o.published ++ x.published, x.result⟩

/-- A call that ends in a failure has changed nothing and published nothing. -/
theorem Concludes.of_error {o : Outcome Lifecycle Progress} {x : Outcome Lifecycle Result}
    (h : Concludes o x) (ho : Settles m o) {f : Failure} (hx : x.result = .error f) :
    x.state = m ∧ x.published = [] := by
  induction h with
  | finished _ => cases hx
  | failed hresult => exact ho.unfinished (by simp [hresult])
  | missed hresult _ => exact ho.unfinished (by simp [hresult])
  | replied reply fresh now hresult _ ih =>
      obtain ⟨hstate, hpublished⟩ := ho.unfinished (by simp [hresult])
      rw [hstate] at ih
      obtain ⟨hsame, hnone⟩ := ih (.resume fresh now _ reply) hx
      constructor
      · exact hsame
      · rw [hpublished, hnone]
        rfl

end AgentGovernance.Lifecycle

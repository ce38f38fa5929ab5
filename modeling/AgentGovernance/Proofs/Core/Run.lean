import AgentGovernance.Core

/-!
# Runs of the core

An operation changes its component at once, but what it publishes reaches the bus event by event,
and anything may come in between: other operations, events that are published directly, and the steps
of the worker that feeds the audit engine. So an operation of a run leaves its events in an outbox,
from where they are sent one after the other. Sending them all at once is what the core itself does.
-/
namespace AgentGovernance.Core

variable {σ : Type}

/-- The operations that may change a component or publish something. -/
inductive Operation where
  | startAgent (o : Lifecycle.Operation) (tick : Nat) (now : Instant)
  | resumeAgent (call : Lifecycle.Call) (reply : call.request.Reply) (fresh : Uuid) (now : Instant)
  | insertMemory (agent : AgentId) (n : Memory.NewNode) (fresh : NodeId) (now : Instant)
  | verifyMemory (id : NodeId)
  | compactMemory (agent : AgentId) (now : Instant)
  | propose (m : Consensus.Motion) (fresh : Uuid) (now : Instant)
  | vote (id : ProposalId) (b : Consensus.Ballot) (now : Instant)
  | readProposal (id : ProposalId) (now : Instant)
  | startCommit (id : ProposalId) (agreement : Option AgreementRef) (deadline : Option Nat)
      (tick : Nat) (fresh : Uuid) (now later : Instant)
  | finishCommit (call : Consensus.PendingCommit) (reply : call.request.Reply) (fresh : Uuid)
      (now : Instant)
  | expireOverdue (now : Instant)
  | verifyCommitment (id : CommitmentId)
  | verifyTrace (id : Nat)

/-- What the core does for an operation, whatever it answers. -/
def perform [Trace.Store σ] (c : Core σ) : Operation → Outcome (Core σ) Unit
  | .startAgent o tick now => (c.onLifecycle (c.lifecycle.start tick now o)).mapResult fun _ => ()
  | .resumeAgent call reply fresh now =>
      (c.onLifecycle (c.lifecycle.resume fresh now call reply)).mapResult fun _ => ()
  | .insertMemory agent n fresh now => (c.insertMemory agent n fresh now).mapResult fun _ => ()
  | .verifyMemory id => (c.onMemory (c.memory.verifyPath id)).mapResult fun _ => ()
  | .compactMemory agent now => (c.compactMemory agent now).mapResult fun _ => ()
  | .propose m fresh now => (c.propose m fresh now).mapResult fun _ => ()
  | .vote id b now => (c.onConsensus (c.consensus.vote id b now)).mapResult fun _ => ()
  | .readProposal id now => (c.onConsensus (c.consensus.read id now)).mapResult fun _ => ()
  | .startCommit id agreement deadline tick fresh now later =>
      (c.onConsensus (c.consensus.startCommit c.proofs id agreement deadline tick fresh now
        later)).mapResult fun _ => ()
  | .finishCommit call reply fresh now =>
      (c.onConsensus (c.consensus.finishCommit c.proofs fresh now call reply)).mapResult fun _ => ()
  | .expireOverdue now => (c.onConsensus (c.consensus.expireOverdue now)).mapResult fun _ => ()
  | .verifyCommitment id => (c.onConsensus (c.consensus.verify c.proofs id)).mapResult fun _ => ()
  | .verifyTrace id => (c.onAudit (c.audit.verify id)).mapResult fun _ => ()

/-! ## What an operation leaves alone -/

theorem foldl_publish (c : Core σ) (es : List Event) :
    es.foldl publish c = { c with bus := es.foldl EventBus.publish c.bus } := by
  induction es generalizing c with
  | nil => rfl
  | cons e es ih => exact ih (c.publish e)

/-- An operation records nothing itself, and reaches the bus by its events only. -/
structure Leaves {α : Type} (c : Core σ) (o : Outcome (Core σ) α) : Prop where
  audit : o.state.audit = c.audit
  auditor : o.state.auditor = c.auditor
  sent : o.published.foldl publish { o.state with bus := c.bus } = o.state

namespace Leaves

variable {α : Type} {c : Core σ}

theorem refuse (c : Core σ) (f : Failure) : Leaves c (.refuse c f : Outcome (Core σ) α) :=
  ⟨rfl, rfl, rfl⟩

theorem ok (c : Core σ) (a : α) : Leaves c (.ok c a) := ⟨rfl, rfl, rfl⟩

theorem mapResult {β : Type} {o : Outcome (Core σ) α} (h : Leaves c o) (f : α → β) :
    Leaves c (o.mapResult f) := ⟨h.audit, h.auditor, h.sent⟩

theorem published {o : Outcome (Core σ) α} (haudit : o.state.audit = c.audit)
    (hauditor : o.state.auditor = c.auditor) (hbus : o.state.bus = c.bus) :
    Leaves c (Core.published o) := by
  have hstate : (Core.published o).state = o.published.foldl publish o.state := rfl
  refine ⟨?_, ?_, ?_⟩
  · rw [hstate, foldl_publish, haudit]
  · rw [hstate, foldl_publish, hauditor]
  · rw [hstate, foldl_publish, foldl_publish, ← hbus]
    rfl

theorem onLifecycle (c : Core σ) (o : Outcome Lifecycle α) : Leaves c (c.onLifecycle o) :=
  published rfl rfl rfl

theorem onMemory (c : Core σ) (o : Outcome Memory.Store α) : Leaves c (c.onMemory o) :=
  published rfl rfl rfl

theorem onConsensus (c : Core σ) (o : Outcome Consensus α) : Leaves c (c.onConsensus o) :=
  published rfl rfl rfl

theorem insertMemory (c : Core σ) (agent : AgentId) (n : Memory.NewNode) (fresh : NodeId)
    (now : Instant) : Leaves c (c.insertMemory agent n fresh now) := by
  unfold Core.insertMemory
  split
  · exact refuse c _
  · exact onMemory c _

theorem compactMemory (c : Core σ) (agent : AgentId) (now : Instant) :
    Leaves c (c.compactMemory agent now) := by
  unfold Core.compactMemory
  split
  · exact refuse c _
  · split
    · exact ok c _
    · exact onMemory c _

theorem propose (c : Core σ) (m : Consensus.Motion) (fresh : Uuid) (now : Instant) :
    Leaves c (c.propose m fresh now) := by
  unfold Core.propose
  split
  · exact refuse c _
  · exact onConsensus c _

/-- Verifying reports what it finds and leaves the engine as it is. -/
theorem verifyTrace [Trace.Store σ] (c : Core σ) (id : Nat) :
    Leaves c (c.onAudit (c.audit.verify id)) := by
  have hstate : (c.audit.verify id).state = c.audit := by
    unfold Audit.Engine.verify
    split
    · rfl
    · dsimp only
      split <;> rfl
  exact published hstate rfl rfl

end Leaves

variable [Trace.Store σ]

theorem perform_leaves (c : Core σ) (o : Operation) : Leaves c (c.perform o) := by
  cases o with
  | startAgent | resumeAgent => exact (Leaves.onLifecycle c _).mapResult _
  | insertMemory agent n fresh now => exact (Leaves.insertMemory c agent n fresh now).mapResult _
  | verifyMemory => exact (Leaves.onMemory c _).mapResult _
  | compactMemory agent now => exact (Leaves.compactMemory c agent now).mapResult _
  | propose m fresh now => exact (Leaves.propose c m fresh now).mapResult _
  | vote | readProposal | startCommit | finishCommit | expireOverdue | verifyCommitment =>
      exact (Leaves.onConsensus c _).mapResult _
  | verifyTrace id => exact (Leaves.verifyTrace c id).mapResult _

/-! ## Runs -/

structure Run (σ : Type) where
  core : Core σ
  /-- What the operations so far have still to publish. -/
  outboxes : List (List Event) := []
  published : List Event := []

inductive Action where
  | operate (o : Operation)
  /-- Sends the next event of the outbox at a place. -/
  | send (place : Nat)
  | publish (e : Event)
  /-- A step of the worker that feeds the audit engine, while the clock shows `now`. -/
  | record (now : Instant)

namespace Run

def publish (r : Run σ) (e : Event) : Run σ :=
  { r with core := r.core.publish e, published := r.published ++ [e] }

def step (r : Run σ) : Action → Run σ
  | .operate o =>
      let p := r.core.perform o
      { r with core := { p.state with bus := r.core.bus }, outboxes := r.outboxes ++ [p.published] }
  | .send place =>
      match r.outboxes[place]? with
      | some (e :: rest) => { r with outboxes := r.outboxes.set place rest }.publish e
      | _ => r
  | .publish e => r.publish e
  | .record now => { r with core := r.core.recordNext now }

/-- The run of some actions on a core that has just been built. -/
def after (c : Core σ) (actions : List Action) : Run σ := actions.foldl step ⟨c, [], []⟩

theorem after_concat (c : Core σ) (actions : List Action) (a : Action) :
    after c (actions ++ [a]) = (after c actions).step a := by
  simp [after]

end Run

end AgentGovernance.Core

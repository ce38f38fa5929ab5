import AgentGovernance.Consensus

/-!
# Runs of the consensus engine

A run is a list of actions. Proposing, voting, reading and sweeping are one action each; a commit
takes its two parts as two actions, whether an agreement makes it wait or not, so anything may come
between them. An action carries the time its clock shows, what the collaborators answer and the id
that would be drawn, and nothing ties the clock of one action to that of another.

The state of a run holds the engine, the commits between their parts, the events published so far
and the answers of the commits that have ended.
-/
namespace AgentGovernance.Consensus

inductive Action where
  | propose (m : Motion) (fresh : Uuid) (now : Instant)
  | vote (id : ProposalId) (b : Ballot) (now : Instant)
  | get (id : ProposalId) (now : Instant)
  | tally (id : ProposalId) (now : Instant)
  | expireOverdue (now : Instant)
  | openCommit (id : ProposalId) (agreement : Option AgreementRef) (deadline : Option Nat)
      (tick : Nat) (now : Instant)
  /-- The second part of the commit at a place among those between their parts. -/
  | closeCommit (place : Nat) (judgement : Except PolicyError Decision) (proofs : ProofSystem)
      (fresh : Uuid) (now : Instant)
  /-- Gives a commit up because its deadline has passed. -/
  | abandonCommit (place : Nat)

namespace Action

/-- The id of the proposal that an action makes. -/
def proposalId? : Action → Option ProposalId
  | .propose _ fresh _ => some ⟨fresh⟩
  | _ => none

/-- The id of the commitment that an action makes. -/
def commitmentId? : Action → Option CommitmentId
  | .closeCommit _ _ _ fresh _ => some ⟨fresh⟩
  | _ => none

end Action

/-- No two proposals and no two commitments are given one id. -/
structure DistinctIds (actions : List Action) : Prop where
  proposals : (actions.filterMap Action.proposalId?).Nodup
  commitments : (actions.filterMap Action.commitmentId?).Nodup

/-- What a commit of a proposal came to. -/
structure Answer where
  proposal : ProposalId
  result : Except Failure Commitment

structure Run where
  engine : Consensus := {}
  pending : List OpenCommit := []
  published : List Event := []
  answers : List Answer := []

namespace Run

def apply {α : Type} (r : Run) (o : Outcome Consensus α) : Run :=
  { r with engine := o.state, published := r.published ++ o.published }

def answer (r : Run) (id : ProposalId) (result : Except Failure Commitment) : Run :=
  { r with answers := r.answers ++ [⟨id, result⟩] }

theorem mem_answers_answer {r : Run} {id : ProposalId} {result : Except Failure Commitment}
    {x : Answer} : x ∈ (r.answer id result).answers ↔ x ∈ r.answers ∨ x = ⟨id, result⟩ := by
  rw [answer, List.mem_append, List.mem_singleton]

def withoutPending (r : Run) (place : Nat) : Run :=
  { r with pending := r.pending.eraseIdx place }

/-- Takes over the first part of a commit. -/
def opened (r : Run) (id : ProposalId) (o : Outcome Consensus CommitStart) : Run :=
  match o.result with
  | .error f => (r.apply o).answer id (.error f)
  | .ok (.already c) => (r.apply o).answer id (.ok c)
  | .ok (.opened call) => { r.apply o with pending := r.pending ++ [call] }

@[simp] theorem opened_engine (r : Run) (id : ProposalId) (o : Outcome Consensus CommitStart) :
    (r.opened id o).engine = o.state := by
  unfold opened
  split <;> rfl

@[simp] theorem opened_published (r : Run) (id : ProposalId) (o : Outcome Consensus CommitStart) :
    (r.opened id o).published = r.published ++ o.published := by
  unfold opened
  split <;> rfl

/-- Takes over the second part of a commit. -/
def closed (r : Run) (place : Nat) (id : ProposalId) (o : Outcome Consensus Commitment) : Run :=
  ((r.apply o).withoutPending place).answer id o.result

def step (settings : Config.ConsensusSettings) (r : Run) : Action → Run
  | .propose m fresh now => r.apply (r.engine.propose settings m fresh now)
  | .vote id b now => r.apply (r.engine.vote id b now)
  | .get id now => r.apply (r.engine.read id now)
  | .tally id now => r.apply (r.engine.tally id now)
  | .expireOverdue now => r.apply (r.engine.expireOverdue now)
  | .openCommit id agreement deadline tick now =>
      r.opened id (r.engine.openCommit id agreement deadline tick now)
  | .closeCommit place judgement proofs fresh now =>
      match r.pending[place]? with
      | none => r
      | some call =>
          r.closed place call.proposal (r.engine.closeCommit proofs fresh now call judgement)
  | .abandonCommit place =>
      match r.pending[place]? with
      | none => r
      | some call =>
          (r.withoutPending place).answer call.proposal
            (.error (.timeout (.missed "commit" .whileRunning)))

/-- The state after some actions of an engine that starts with empty tables. -/
def after (settings : Config.ConsensusSettings) (actions : List Action) : Run :=
  actions.foldl (step settings) {}

theorem after_concat (settings : Config.ConsensusSettings) (actions : List Action) (a : Action) :
    after settings (actions ++ [a]) = (after settings actions).step settings a := by
  simp [after]

end Run

/-- A proposal that one vote commits. It is read while the commit waits, and the clock goes back. -/
def quickCommit : List Action :=
  [.propose ⟨⟨⟨7⟩⟩, "deploy", 1, none, none⟩ ⟨1⟩ ⟨0⟩,
   .vote ⟨⟨1⟩⟩ ⟨⟨"v1"⟩, .approve, 1, "s"⟩ ⟨5⟩,
   .openCommit ⟨⟨1⟩⟩ (some ⟨"agreement"⟩) none 0 ⟨6⟩,
   .get ⟨⟨1⟩⟩ ⟨3⟩,
   .closeCommit 0 (.ok ⟨true, ""⟩) ⟨"open", fun _ => .ok ⟨"open", "", none⟩, fun _ _ => true⟩ ⟨2⟩ ⟨4⟩]

end AgentGovernance.Consensus

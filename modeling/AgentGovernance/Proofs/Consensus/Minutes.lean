import AgentGovernance.Proofs.Consensus.Advance

/-!
# What is published about the proposals of a run

A run here has verifications of commitments in it as well, and keeps the votes that counted. In
every state of a run the events about a stored proposal are a word, and no other events are about
proposals.
-/
namespace AgentGovernance.Consensus

variable {es : List Event} {xs : List Counted}

/-- A verification of a commitment is part of a run too. It may publish that it has failed. -/
inductive Call where
  | act (a : Action)
  | verify (proofs : ProofSystem) (id : CommitmentId)

/-- The id of the proposal that a call makes. -/
def Call.proposalId? : Call → Option ProposalId
  | .act a => a.proposalId?
  | .verify _ _ => none

/-- How the id reads. -/
def Call.text? (x : Call) : Option String := x.proposalId?.map (·.uuid.text)

/-- A run with the votes that have counted. -/
structure Minutes where
  run : Run := {}
  counted : List Counted := []

namespace Minutes

def step (settings : Config.ConsensusSettings) (m : Minutes) : Call → Minutes
  | .act a => ⟨m.run.step settings a, m.counted ++ (counted? m.run.engine a).toList⟩
  | .verify proofs id => { m with run := m.run.apply (m.run.engine.verify proofs id) }

/-- The state after some calls of an engine that starts with empty tables. -/
def after (settings : Config.ConsensusSettings) (calls : List Call) : Minutes :=
  calls.foldl (step settings) {}

theorem after_concat (settings : Config.ConsensusSettings) (calls : List Call) (x : Call) :
    after settings (calls ++ [x]) = (after settings calls).step settings x := by
  simp [after]

end Minutes

theorem verify_state (s : Consensus) (proofs : ProofSystem) (id : CommitmentId) :
    (s.verify proofs id).state = s := by
  unfold verify
  split
  · rfl
  · split <;> rfl

/-- Verifying publishes nothing about proposals. -/
theorem verify_published (s : Consensus) (proofs : ProofSystem) (id : CommitmentId) :
    ∀ e ∈ (s.verify proofs id).published, isConsensus e.type = false := by
  unfold verify
  split
  · simp [Outcome.refuse]
  · split
    · simp [Outcome.refuse]
    · dsimp only [Outcome.ok]
      intro e he
      split at he
      · cases he
      · rw [List.mem_singleton.mp he]
        rfl

/-- What the published events say about the proposals. -/
structure Minuted (m : Minutes) : Prop where
  /-- The events about a stored proposal are a word. -/
  words : ∀ id p, m.run.engine.proposals.find? id = some p →
    Word (about id m.run.published) (countedFor id m.counted) p
  /-- They are about that proposal only. -/
  apart : Apart m.run.engine
  /-- There is nothing else to read about proposals. -/
  named : ∀ e ∈ m.run.published, isConsensus e.type = true →
    ∃ id p, m.run.engine.proposals.find? id = some p ∧ e.target = some id.uuid.text
  counted : ∀ x ∈ m.counted, ∃ p, m.run.engine.proposals.find? x.vote.proposal = some p

namespace Minuted

theorem empty : Minuted {} := by
  refine ⟨?_, ?_, ?_, ?_⟩
  · intro _ _ h
    cases h
  · intro _ _ _ _ h
    cases h
  · intro _ h
    cases h
  · intro _ h
    cases h

end Minuted

theorem Advance.keyed {fresh : Option ProposalId} {s t : Consensus}
    (h : Advance fresh s t es xs) (hs : s.Keyed) : t.Keyed := by
  intro id q hq
  rcases h.progress id q hq with ⟨p, hp, hprogress⟩ | ⟨-, hid, -⟩
  · rw [hprogress.id_eq, hs id p hp]
  · exact hid

/-- The id of a stored proposal has been drawn. -/
theorem Advance.mem_texts {x : Call} {s t : Consensus} (h : Advance x.proposalId? s t es xs)
    {drawn : List String} (hs : ∀ id p, s.proposals.find? id = some p → id.uuid.text ∈ drawn) :
    ∀ id q, t.proposals.find? id = some q → id.uuid.text ∈ drawn ++ x.text?.toList := by
  intro id q hq
  rcases h.progress id q hq with ⟨p, hp, -⟩ | ⟨hid, -⟩
  · exact List.mem_append_left _ (hs id p hp)
  · refine List.mem_append_right _ ?_
    rw [Call.text?, hid]
    exact List.mem_singleton_self _

namespace Minutes

variable (settings : Config.ConsensusSettings)

end Minutes

end AgentGovernance.Consensus

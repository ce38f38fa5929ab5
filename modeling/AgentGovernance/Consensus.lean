import AgentGovernance.Commitment
import AgentGovernance.Config.Manifest
import AgentGovernance.Outcome
import AgentGovernance.Request

/-!
# Consensus

The engine keeps the proposals, and the commitments of those that were committed. A proposal that is
overdue expires when it is next read, voted on or committed, or in a sweep over all proposals.

Committing may ask the policy authority first. While it waits for the reply other operations may
run, so the proposal is checked again afterwards. Committing a proposal that has a commitment
returns that commitment.
-/
namespace AgentGovernance

namespace Consensus

/-- The name under which consensus publishes. -/
def source : String := "consensus"

/-- What is proposed. Without a timeout or a floor of its own the configured ones apply. -/
structure Motion where
  agent : AgentId
  type : String
  required : UInt64
  timeout : Option Span := none
  floor : Option UInt64 := none

structure Ballot where
  voter : VoterId
  decision : VoteDecision
  weight : UInt64
  signature : String := ""

/-- A commit between its two parts: its proposal was found to be committable. -/
structure OpenCommit where
  proposal : ProposalId
  type : String
  agreement : Option AgreementRef
  deadline : Option Nat

/-- What the first part of a commit comes to. -/
inductive CommitStart where
  | already (commitment : Commitment)
  | opened (call : OpenCommit)

/-- A commit that waits for the judgement of its action. -/
structure PendingCommit where
  proposal : ProposalId
  type : String
  agreement : AgreementRef
  deadline : Option Nat

abbrev PendingCommit.request (c : PendingCommit) : Request :=
  .judge c.agreement (commitAction c.type)

inductive CommitProgress where
  | waiting (call : PendingCommit)
  | finished (commitment : Commitment)

end Consensus

structure Consensus where
  proposals : Table ProposalId Proposal := ∅
  commitments : Table CommitmentId Commitment := ∅
  /-- The commitment of each committed proposal. -/
  commitmentOf : Table ProposalId CommitmentId := ∅

namespace Consensus

def notFound (id : ProposalId) : Failure := .notFound .proposal id.uuid.text

def withProposal (s : Consensus) (p : Proposal) : Consensus :=
  { s with proposals := s.proposals.insert p.id p }

def commitmentFor (s : Consensus) (id : ProposalId) : Option Commitment :=
  (s.commitmentOf.find? id).bind s.commitments.find?

def getCommitment (s : Consensus) (id : CommitmentId) : Except Failure Commitment :=
  match s.commitments.find? id with
  | some c => .ok c
  | none => .error (.notFound .commitment id.uuid.text)

def states (s : Consensus) : List (ProposalId × ProposalState) :=
  s.proposals.values.map fun p => (p.id, p.state)

/-! ## Events -/

def event (type : EventType) (id : ProposalId) (payload : List (String × Json)) : Event where
  type := type
  source := source
  target := some id.uuid.text
  payload := .object (("proposal_id", encode id) :: payload)

def proposedEvent (p : Proposal) : Event :=
  event .consensusProposed p.id
    [("agent_id", encode p.agent), ("proposal_type", encode p.type),
     ("required_weight", encode p.required), ("participation_floor", encode p.floor),
     ("timeout_at", encode p.timeoutAt)]

def votedEvent (v : Vote) (t : Tally) : Event :=
  event .consensusVoted v.proposal
    [("voter_id", encode v.voter), ("decision", encode v.decision), ("weight", encode v.weight),
     ("tally", encode t)]

def rejectedEvent (p : Proposal) : Event :=
  event .consensusRejected p.id [("agent_id", encode p.agent), ("tally", encode p.tally)]

def expiredEvent (p : Proposal) : Event :=
  event .consensusExpired p.id
    [("agent_id", encode p.agent), ("timeout_at", encode p.timeoutAt), ("tally", encode p.tally)]

def committedEvent (p : Proposal) (c : Commitment) : Event :=
  event .consensusCommitted p.id
    [("commitment_id", encode c.id), ("tally", encode p.tally), ("tally_hash", encode c.tallyHash),
     ("proof_scheme", encode c.proof.scheme), ("agreement_ref", encode c.agreement)]

/-- What is published about a commitment that does not verify. -/
def violation (r : CommitmentReport) : Event where
  type := .auditIntegrityViolation
  source := source
  target := some r.commitment.uuid.text
  payload := .object
    [("commitment_id", encode r.commitment), ("tally_matches", encode r.tallyMatches),
     ("proof_valid", encode r.proofValid), ("reason", encode r.reason)]

/-! ## Proposing and voting -/

/-- When a proposal made now times out. -/
def timeoutAt (timeout : Span) (now : Instant) : Except Failure Instant :=
  if !timeout.isAddable then .error (.constraintViolation (.timeoutOutOfRange timeout))
  else match now.shift? timeout.nanos with
    | some t => .ok t
    | none => .error (.constraintViolation .timeoutBeyondCalendar)

def propose (s : Consensus) (settings : Config.ConsensusSettings) (m : Motion) (fresh : Uuid)
    (now : Instant) : Outcome Consensus ProposalId :=
  match timeoutAt (m.timeout.getD settings.defaultTimeout) now with
  | .error f => .refuse s f
  | .ok deadline =>
      let floor := m.floor.getD (.ofNat settings.participationFloor)
      match (Proposal.new ⟨fresh⟩ m.agent m.type m.required floor now deadline).openVoting with
      | .error f => .refuse s f
      | .ok p => .ok (s.withProposal p) p.id [proposedEvent p]

/-- Expires a proposal that is to be refused for it. -/
def expire (s : Consensus) (p : Proposal) {α : Type} : Outcome Consensus α :=
  let p := { p with state := .expired }
  ⟨s.withProposal p, [expiredEvent p], .error (.expired p.id.uuid.text)⟩

def vote (s : Consensus) (id : ProposalId) (b : Ballot) (now : Instant) : Outcome Consensus Tally :=
  match s.proposals.find? id with
  | none => .refuse s (notFound id)
  | some p =>
      if p.isOverdue now then s.expire p
      else
        let v : Vote := ⟨b.voter, id, b.decision, b.weight, b.signature, now⟩
        match p.recordVote v now with
        | .error f => .refuse s f
        | .ok (p, t) =>
            .ok (s.withProposal p) t
              (votedEvent v t :: if p.state = .rejected then [rejectedEvent p] else [])

/-! ## Reading -/

/-- A proposal, expired first if it is overdue. -/
def read (s : Consensus) (id : ProposalId) (now : Instant) : Outcome Consensus Proposal :=
  match s.proposals.find? id with
  | none => .refuse s (notFound id)
  | some p =>
      if p.isOverdue now then
        let p := p.expireIfDue now
        .ok (s.withProposal p) p [expiredEvent p]
      else .ok s p

def tally (s : Consensus) (id : ProposalId) (now : Instant) : Outcome Consensus Tally :=
  (s.read id now).mapResult Proposal.tally

/-- Expires every overdue proposal. -/
def expireOverdue (s : Consensus) (now : Instant) : Outcome Consensus (List ProposalId) :=
  let due := s.proposals.values.filter (·.isOverdue now)
  .ok { s with proposals := s.proposals.map fun _ p => p.expireIfDue now } (due.map (·.id))
    (due.map fun p => expiredEvent (p.expireIfDue now))

/-! ## Committing -/

/-- The proposal as committed, with its tally hash and the proof of it. -/
def attest (proofs : ProofSystem) (p : Proposal) :
    Except Failure (Proposal × ContentHash × Proof) := do
  p.ensureCommittable
  let tallyHash := p.tallyHash
  match proofs.attest ⟨p.id.uuid.text, tallyHash⟩ with
  | .error e => throw (.ofProof e)
  | .ok proof => return (← p.markCommitted, tallyHash, proof)

def withCommitment (s : Consensus) (p : Proposal) (c : Commitment) : Consensus where
  proposals := s.proposals.insert p.id p
  commitments := s.commitments.insert c.id c
  commitmentOf := s.commitmentOf.insert p.id c.id

/-- The second part of a commit, which does not wait. -/
def finalize (s : Consensus) (proofs : ProofSystem) (id : ProposalId)
    (agreement : Option AgreementRef)
    (fresh : Uuid) (now : Instant) : Outcome Consensus Commitment :=
  match s.commitmentFor id, s.proposals.find? id with
  | some c, _ => .ok s c
  | none, none => .refuse s (notFound id)
  | none, some p =>
      if p.isOverdue now then s.expire p
      else match attest proofs p with
        | .error f => .refuse s f
        | .ok (p, tallyHash, proof) =>
            let c : Commitment := ⟨⟨fresh⟩, id, now, tallyHash, proof, agreement⟩
            .ok (s.withCommitment p c) c [committedEvent p c]

/-- Why a proposal without a commitment cannot be committed now, if it cannot. -/
def ensureOpen (p : Proposal) : Except Failure Unit :=
  if p.state = .expired then .error (.expired p.id.uuid.text) else p.ensureCommittable

/-- The first part of a commit. The deadline is a tick of the clock that measures waiting. -/
def openCommit (s : Consensus) (id : ProposalId) (agreement : Option AgreementRef)
    (deadline : Option Nat) (tick : Nat) (now : Instant) : Outcome Consensus CommitStart :=
  (s.read id now).andThen fun s p =>
    match s.commitmentFor id with
    | some c => .ok s (.already c)
    | none =>
        match ensureOpen p with
        | .error f => .refuse s f
        | .ok () =>
            if deadline.any (· ≤ tick) then .refuse s (.timeout (.missed "commit" .beforeStart))
            else .ok s (.opened ⟨id, p.type, agreement, deadline⟩)

/-- Runs a commit up to its request or its end. Each part reads the time for itself. -/
def startCommit (s : Consensus) (proofs : ProofSystem) (id : ProposalId)
    (agreement : Option AgreementRef)
    (deadline : Option Nat) (tick : Nat) (fresh : Uuid) (now later : Instant) :
    Outcome Consensus CommitProgress :=
  (s.openCommit id agreement deadline tick now).andThen fun s start =>
    match start with
    | .already c => .ok s (.finished c)
    | .opened c =>
        match c.agreement with
        | some a => .ok s (.waiting ⟨c.proposal, c.type, a, c.deadline⟩)
        | none => (s.finalize proofs c.proposal none fresh later).mapResult .finished

/-- Goes on from the judgement. -/
def finishCommit (s : Consensus) (proofs : ProofSystem) (fresh : Uuid) (now : Instant)
    (c : PendingCommit) :
    c.request.Reply → Outcome Consensus Commitment
  | .error e => .refuse s (.ofPolicy e)
  | .ok d =>
      if d.compliant then s.finalize proofs c.proposal (some c.agreement) fresh now
      else .refuse s (.constraintViolation (.notCompliant d.reason))

/-- The second part of any commit. Only a commit under an agreement has been judged. -/
def closeCommit (s : Consensus) (proofs : ProofSystem) (fresh : Uuid) (now : Instant)
    (c : OpenCommit) (judgement : Except PolicyError Decision) : Outcome Consensus Commitment :=
  match c.agreement with
  | some a => s.finishCommit proofs fresh now ⟨c.proposal, c.type, a, c.deadline⟩ judgement
  | none => s.finalize proofs c.proposal none fresh now

/-! ## Verifying -/

def report (proofs : ProofSystem) (c : Commitment) (p : Proposal) : CommitmentReport :=
  let recomputed := p.tallyHash
  let tallyMatches := decide (recomputed = c.tallyHash)
  let proofValid := proofs.verify ⟨c.proposal.uuid.text, c.tallyHash⟩ c.proof
  let reason :=
    if !tallyMatches then
      some ("tally hash " ++ recomputed.text ++
        " recomputed from stored votes does not match committed " ++ c.tallyHash.text)
    else if !proofValid then
      some (c.proof.scheme ++ " proof does not verify for proposal " ++ c.proposal.uuid.text)
    else none
  ⟨c.id, tallyMatches && proofValid, tallyMatches, proofValid, reason⟩

/-- Recomputes the tally hash from the votes and checks the proof again. -/
def verify (s : Consensus) (proofs : ProofSystem) (id : CommitmentId) :
    Outcome Consensus CommitmentReport :=
  match s.getCommitment id with
  | .error f => .refuse s f
  | .ok c =>
      match s.proposals.find? c.proposal with
      | none => .refuse s (notFound c.proposal)
      | some p =>
          let r := report proofs c p
          .ok s r (if r.valid then [] else [violation r])

end Consensus

end AgentGovernance

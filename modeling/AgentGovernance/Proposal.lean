import AgentGovernance.ContentHash

/-!
# Proposals

A proposal collects weighted votes, one for each voter, until it is committed, rejected or expired:

    Proposed → Voting → Committed | Rejected | Expired

Nothing leaves the three states on the right. A quorum is reached when the approving weight meets
the required weight and the weight of all votes meets the participation floor. Weights are 64-bit
words and their sums stop at the largest word.
-/
namespace AgentGovernance

structure Vote where
  voter : VoterId
  proposal : ProposalId
  decision : VoteDecision
  weight : UInt64
  signature : String
  castAt : Instant
  deriving DecidableEq, Repr

instance : Codec Vote where
  encode v := .record
    [("voter_id", encode v.voter), ("proposal_id", encode v.proposal),
     ("decision", encode v.decision), ("weight", encode v.weight),
     ("signature", encode v.signature), ("cast_at", encode v.castAt)]
  decode? := Codec.readRecord do
    let voter ← Codec.required "voter_id"
    let proposal ← Codec.required "proposal_id"
    let decision ← Codec.required "decision"
    let weight ← Codec.required "weight"
    let signature ← Codec.required "signature"
    let castAt ← Codec.required "cast_at"
    return ⟨voter, proposal, decision, weight, signature, castAt⟩

structure Tally where
  approve : UInt64
  reject : UInt64
  abstain : UInt64
  participation : UInt64
  voters : Nat
  required : UInt64
  floor : UInt64
  quorumReached : Bool
  deriving DecidableEq, Repr

instance : Codec Tally where
  encode t := .record
    [("approve_weight", encode t.approve), ("reject_weight", encode t.reject),
     ("abstain_weight", encode t.abstain), ("participation_weight", encode t.participation),
     ("voter_count", encode t.voters), ("required_weight", encode t.required),
     ("participation_floor", encode t.floor), ("quorum_reached", encode t.quorumReached)]
  decode? := Codec.readRecord do
    let approve ← Codec.required "approve_weight"
    let reject ← Codec.required "reject_weight"
    let abstain ← Codec.required "abstain_weight"
    let participation ← Codec.required "participation_weight"
    let voters ← Codec.required "voter_count"
    let required ← Codec.required "required_weight"
    let floor ← Codec.required "participation_floor"
    let quorumReached ← Codec.required "quorum_reached"
    return ⟨approve, reject, abstain, participation, voters, required, floor, quorumReached⟩

/-- The sum of two weights, or the largest word where that is smaller. -/
def addWeight (a b : UInt64) : UInt64 := UInt64.ofNat (min (a.toNat + b.toNat) ((1 <<< 64) - 1))

structure Proposal where
  id : ProposalId
  agent : AgentId
  type : String
  required : UInt64
  floor : UInt64
  createdAt : Instant
  timeoutAt : Instant
  state : ProposalState
  /-- A later vote of a voter replaces the earlier one. -/
  votes : Table VoterId Vote
  deriving DecidableEq, Repr

instance : Codec Proposal where
  encode p := .record
    [("proposal_id", encode p.id), ("agent_id", encode p.agent), ("proposal_type", encode p.type),
     ("required_weight", encode p.required), ("participation_floor", encode p.floor),
     ("created_at", encode p.createdAt), ("timeout_at", encode p.timeoutAt),
     ("state", encode p.state), ("votes", encode p.votes)]
  decode? := Codec.readRecord do
    let id ← Codec.required "proposal_id"
    let agent ← Codec.required "agent_id"
    let type ← Codec.required "proposal_type"
    let required ← Codec.required "required_weight"
    let floor ← Codec.required "participation_floor"
    let createdAt ← Codec.required "created_at"
    let timeoutAt ← Codec.required "timeout_at"
    let state ← Codec.required "state"
    let votes ← Codec.required "votes"
    return ⟨id, agent, type, required, floor, createdAt, timeoutAt, state, votes⟩

namespace Proposal

def new (id : ProposalId) (agent : AgentId) (type : String) (required floor : UInt64)
    (createdAt timeoutAt : Instant) : Proposal :=
  ⟨id, agent, type, required, floor, createdAt, timeoutAt, .proposed, ∅⟩

def isPastTimeout (p : Proposal) (now : Instant) : Bool := p.timeoutAt ≤ now

def isOverdue (p : Proposal) (now : Instant) : Bool := !p.state.isTerminal && p.isPastTimeout now

/-- Expires an overdue proposal and leaves every other one as it is. -/
def expireIfDue (p : Proposal) (now : Instant) : Proposal :=
  if p.isOverdue now then { p with state := .expired } else p

/-- The summed weight of the votes with one decision. -/
def weightOf (p : Proposal) (decision : VoteDecision) : UInt64 :=
  (p.votes.values.filter (·.decision = decision)).foldl (fun sum v => addWeight sum v.weight) 0

def tally (p : Proposal) : Tally :=
  let approve := p.weightOf .approve
  let reject := p.weightOf .reject
  let abstain := p.weightOf .abstain
  let participation := addWeight (addWeight approve reject) abstain
  { approve, reject, abstain, participation
    voters := p.votes.size
    required := p.required
    floor := p.floor
    quorumReached := p.required ≤ approve && p.floor ≤ participation }

def voteFields (v : Vote) : List Bytes :=
  [.ofString v.voter.name, .ofString v.decision.name, Bytes.bigEndian 8 v.weight.toNat,
   .ofString v.signature]

/-- Binds the proposal, its thresholds and every vote, but not when the votes were cast. -/
def tallyHash (p : Proposal) : ContentHash :=
  .ofFields <|
    [.ofString p.id.uuid.text, Bytes.bigEndian 8 p.required.toNat,
     Bytes.bigEndian 8 p.floor.toNat] ++
      p.votes.values.flatMap voteFields

def move (p : Proposal) (source target : ProposalState) : Except Failure Proposal :=
  if p.state = source then .ok { p with state := target }
  else .error (.invalidState (.noTransition p.id source target p.state))

def openVoting (p : Proposal) : Except Failure Proposal := p.move .proposed .voting

def markCommitted (p : Proposal) : Except Failure Proposal := p.move .voting .committed

/-- Only a proposal that is open for voting and has reached its quorum can be committed. -/
def ensureCommittable (p : Proposal) : Except Failure Unit :=
  if p.state ≠ .voting then .error (.invalidState (.notCommittable p.id p.state))
  else if !p.tally.quorumReached then .error (.quorumNotReached p.tally.approve p.required)
  else .ok ()

/-- Whether the rejecting weight alone meets a required weight that is not zero. -/
def isVotedDown (p : Proposal) : Bool := 0 < p.required && p.required ≤ p.weightOf .reject

def withVote (p : Proposal) (vote : Vote) : Proposal :=
  { p with votes := p.votes.insert vote.voter vote }

/-- Records a vote; one that tips the rejecting weight over the required weight rejects the
proposal. -/
def recordVote (p : Proposal) (vote : Vote) (now : Instant) : Except Failure (Proposal × Tally) :=
  if p.state = .expired ∨ p.isPastTimeout now then .error (.expired p.id.uuid.text)
  else if p.state ≠ .voting then .error (.invalidState (.notVoting p.id p.state))
  else if vote.proposal ≠ p.id then .error (.invalidState (.voteElsewhere vote.proposal p.id))
  else
    let voted := p.withVote vote
    .ok (if voted.isVotedDown then { voted with state := .rejected } else voted, voted.tally)

end Proposal

end AgentGovernance

import AgentGovernance.Proofs.Consensus.Tally
import AgentGovernance.Proofs.Table

/-!
# The roll of a proposal

The roll of a proposal says who has voted what, in the order of the voters, and not when. Nothing
else of the votes goes into a tally or a tally hash, so two proposals with one id, the same
thresholds and the same roll are tallied and hashed alike.
-/
namespace AgentGovernance

/-- What a vote says, apart from when it was cast. -/
structure Stance where
  voter : VoterId
  decision : VoteDecision
  weight : UInt64
  signature : String
  deriving DecidableEq

def Vote.stance (v : Vote) : Stance := ⟨v.voter, v.decision, v.weight, v.signature⟩

/-- What is hashed for a vote. -/
def Stance.fields (s : Stance) : List Bytes :=
  [.ofString s.voter.name, .ofString s.decision.name, Bytes.bigEndian 8 s.weight.toNat,
   .ofString s.signature]

namespace Proposal

def roll (p : Proposal) : List Stance := p.votes.values.map Vote.stance

/-- What is hashed for a proposal, field by field. -/
def hashFields (p : Proposal) : List Bytes :=
  .ofString p.id.uuid.text :: Bytes.bigEndian 8 p.required.toNat ::
    Bytes.bigEndian 8 p.floor.toNat :: p.roll.flatMap Stance.fields

def hashInput (p : Proposal) : Bytes := ContentHash.frames p.hashFields

theorem tallyHash_eq (p : Proposal) : p.tallyHash = .of p.hashInput := by
  rw [hashInput, hashFields, roll, List.flatMap_map]
  rfl

theorem weightOf_eq (p : Proposal) (decision : VoteDecision) :
    p.weightOf decision = (p.roll.filter (·.decision = decision)).foldl
      (fun sum s => addWeight sum s.weight) 0 := by
  rw [roll, List.filter_map, List.foldl_map]
  rfl

theorem length_roll (p : Proposal) : p.roll.length = p.votes.size := by
  rw [roll, List.length_map, Table.values, List.length_map, Table.size]

/-- Proposals under one id on which the same has been voted, towards the same thresholds. -/
structure SameBallot (p q : Proposal) : Prop where
  id : p.id = q.id
  required : p.required = q.required
  floor : p.floor = q.floor
  roll : p.roll = q.roll

namespace SameBallot

variable {p q : Proposal}

theorem weightOf_eq (h : SameBallot p q) (decision : VoteDecision) :
    p.weightOf decision = q.weightOf decision := by
  rw [Proposal.weightOf_eq, Proposal.weightOf_eq, h.roll]

theorem tally_eq (h : SameBallot p q) : p.tally = q.tally := by
  simp only [tally, h.weightOf_eq, h.required, h.floor, ← length_roll, h.roll]

theorem isVotedDown_eq (h : SameBallot p q) : p.isVotedDown = q.isVotedDown := by
  rw [isVotedDown, isVotedDown, h.required, h.weightOf_eq]

theorem hashInput_eq (h : SameBallot p q) : p.hashInput = q.hashInput := by
  rw [hashInput, hashInput, hashFields, hashFields, h.id, h.required, h.floor, h.roll]

theorem tallyHash_eq (h : SameBallot p q) : p.tallyHash = q.tallyHash := by
  rw [Proposal.tallyHash_eq, Proposal.tallyHash_eq, h.hashInput_eq]

end SameBallot

/-- The roll is known when it is known what each voter says. -/
theorem roll_eq_of_find? {p q : Proposal} (h : ∀ voter,
    (p.votes.find? voter).map Vote.stance = (q.votes.find? voter).map Vote.stance) :
    p.roll = q.roll := by
  have hroll : ∀ r : Proposal, r.roll = (r.votes.map fun _ v => v.stance).values := by
    intro r
    simp [roll, Table.values, Table.map]
  have htable : (p.votes.map fun _ v => v.stance) = q.votes.map fun _ v => v.stance := by
    apply Table.ext_find?
    intro voter
    rw [Table.find?_map, Table.find?_map]
    exact h voter
  rw [hroll, hroll, htable]

end Proposal

end AgentGovernance

import AgentGovernance.Proposal
import AgentGovernance.Proof

/-!
# Commitments

A commitment is the proven outcome of a proposal. Checking it compares its tally hash with that of
the proposal and its proof with the statement that the proposal has that tally.
-/
namespace AgentGovernance

structure Commitment where
  id : CommitmentId
  proposal : ProposalId
  timestamp : Instant
  tallyHash : ContentHash
  proof : Proof
  agreement : Option AgreementRef
  deriving DecidableEq, Repr

instance : Codec Commitment where
  encode c := .record
    [("commitment_id", encode c.id), ("proposal_id", encode c.proposal),
     ("timestamp", encode c.timestamp), ("tally_hash", encode c.tallyHash),
     ("proof", encode c.proof), ("agreement_ref", c.agreement.map encode)]
  decode? := Codec.readRecord do
    let id ← Codec.required "commitment_id"
    let proposal ← Codec.required "proposal_id"
    let timestamp ← Codec.required "timestamp"
    let tallyHash ← Codec.required "tally_hash"
    let proof ← Codec.required "proof"
    let agreement ← Codec.optional "agreement_ref"
    return ⟨id, proposal, timestamp, tallyHash, proof, agreement⟩

structure CommitmentReport where
  commitment : CommitmentId
  valid : Bool
  tallyMatches : Bool
  proofValid : Bool
  reason : Option String
  deriving DecidableEq, Repr

instance : Codec CommitmentReport where
  encode r := .record
    [("commitment_id", encode r.commitment), ("valid", encode r.valid),
     ("tally_matches", encode r.tallyMatches), ("proof_valid", encode r.proofValid),
     ("reason", r.reason.map encode)]
  decode? := Codec.readRecord do
    let commitment ← Codec.required "commitment_id"
    let valid ← Codec.required "valid"
    let tallyMatches ← Codec.required "tally_matches"
    let proofValid ← Codec.required "proof_valid"
    let reason ← Codec.optional "reason"
    return ⟨commitment, valid, tallyMatches, proofValid, reason⟩

/-- A report of an invalid commitment, as a failure. -/
def CommitmentReport.demand (r : CommitmentReport) : Except Failure CommitmentReport :=
  if r.valid then .ok r
  else .error (.integrityViolation r.commitment.uuid.text (r.reason.getD ""))

end AgentGovernance

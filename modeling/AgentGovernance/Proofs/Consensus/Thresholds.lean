import AgentGovernance.Proofs.Consensus.Move

/-!
# Thresholds and exact weights

Weights are added with sums that stop at the largest word, first those of one decision and then the
sums themselves. A tally therefore shows a weight that is too small when many heavy votes are cast,
but it decides as the exact weights do: a quorum is reached and a proposal rejected exactly when the
natural sums meet the thresholds.
-/
namespace AgentGovernance.Proposal

/-- What an accepted vote makes of a proposal, with the tally it is answered with. -/
structure Records (p : Proposal) (v : Vote) (q : Proposal) (t : Tally) : Prop where
  votes : q.votes = p.votes.insert v.voter v
  tally : t = q.tally
  rejected : q.state = .rejected ↔
    0 < p.required.toNat ∧ p.required.toNat ≤ q.exactWeight .reject
  voting : q.state ≠ .rejected → q.state = .voting
  /-- Nothing else changes. -/
  rest : q = { p with votes := q.votes, state := q.state }

/-- A vote is accepted on an open proposal that it names, before the timeout. -/
theorem exists_recordVote_iff {p : Proposal} {v : Vote} {now : Instant} :
    (∃ q t, p.recordVote v now = .ok (q, t)) ↔
      p.state = .voting ∧ v.proposal = p.id ∧ now < p.timeoutAt := by
  have htime : p.isPastTimeout now = false ↔ now < p.timeoutAt := by
    rw [isPastTimeout, decide_eq_false_iff_not]
    exact Int.not_le
  constructor
  · rintro ⟨q, t, h⟩
    obtain ⟨hvoting, hid, hopen, -⟩ := Consensus.recordVote_eq_ok h
    exact ⟨hvoting, hid, htime.mp hopen⟩
  · rintro ⟨hvoting, hid, hnow⟩
    have hopen := htime.mpr hnow
    simp [recordVote, hvoting, hid, hopen]

theorem records_of_recordVote {p q : Proposal} {v : Vote} {now : Instant} {t : Tally}
    (h : p.recordVote v now = .ok (q, t)) : Records p v q t := by
  obtain ⟨hvoting, -, -, rfl, rfl⟩ := Consensus.recordVote_eq_ok h
  have hdown := (p.withVote v).isVotedDown_iff
  split
  next hyes =>
    exact ⟨rfl, rfl, iff_of_true rfl (hdown.mp hyes), fun hstate => absurd rfl hstate, rfl⟩
  next hno =>
    have hstate : (p.withVote v).state ≠ .rejected := by
      rw [withVote, hvoting]
      decide
    exact ⟨rfl, rfl, iff_of_false hstate (hdown.not.mp hno), fun _ => hvoting, rfl⟩

/-- The weights of a tally are the exact ones as far as a word goes, and the quorum is decided as
they decide it. So is the rejection, by every vote that is accepted: one on an open proposal that it
names, before the timeout. -/
theorem tally_decides_exactly (p : Proposal) :
    (p.tally.approve.toNat = min (p.exactWeight .approve) (2 ^ 64 - 1) ∧
      p.tally.reject.toNat = min (p.exactWeight .reject) (2 ^ 64 - 1) ∧
      p.tally.abstain.toNat = min (p.exactWeight .abstain) (2 ^ 64 - 1) ∧
      p.tally.participation.toNat = min p.exactParticipation (2 ^ 64 - 1)) ∧
    (p.tally.quorumReached = true ↔
      p.required.toNat ≤ p.exactWeight .approve ∧ p.floor.toNat ≤ p.exactParticipation) ∧
    (∀ v now, (∃ q t, p.recordVote v now = .ok (q, t)) ↔
      p.state = .voting ∧ v.proposal = p.id ∧ now < p.timeoutAt) ∧
    ∀ v now q t, p.recordVote v now = .ok (q, t) → Records p v q t :=
  ⟨⟨p.toNat_weightOf .approve, p.toNat_weightOf .reject, p.toNat_weightOf .abstain,
      p.toNat_participation⟩,
    p.quorumReached_iff, fun _ _ => exists_recordVote_iff, fun _ _ _ _ => records_of_recordVote⟩

/-- Both thresholds are the largest word. -/
def heavy : Proposal :=
  { Proposal.new ⟨⟨1⟩⟩ ⟨⟨7⟩⟩ "deploy" 0xffffffffffffffff 0xffffffffffffffff ⟨0⟩ ⟨60⟩ with
    state := .voting
    votes := .ofList
      [(⟨"v1"⟩, ⟨⟨"v1"⟩, ⟨⟨1⟩⟩, .approve, 0xffffffffffffffff, "s", ⟨1⟩⟩),
       (⟨"v2"⟩, ⟨⟨"v2"⟩, ⟨⟨1⟩⟩, .reject, 0x8000000000000000, "s", ⟨2⟩⟩)] }

/-- The second rejecting vote takes the sum to one more than a word can hold. -/
def tipping : Vote := ⟨⟨"v3"⟩, ⟨⟨1⟩⟩, .reject, 0x8000000000000000, "s", ⟨3⟩⟩

theorem tally_decides_exactly_heavy :
    ∃ q t, heavy.recordVote tipping ⟨3⟩ = .ok (q, t) ∧ q.exactWeight .reject = 2 ^ 64 ∧
      q.tally.reject.toNat = 2 ^ 64 - 1 ∧ q.state = .rejected ∧
      heavy.tally.quorumReached = true := by
  obtain ⟨-, hquorum, haccepts, hrecords⟩ := tally_decides_exactly heavy
  obtain ⟨q, t, h⟩ := (haccepts tipping ⟨3⟩).mpr ⟨rfl, rfl, by decide⟩
  have hq := hrecords tipping ⟨3⟩ q t h
  have hexact : q.exactWeight .reject = 2 ^ 64 := by
    rw [exactWeight, hq.votes]
    decide +kernel
  refine ⟨q, t, h, hexact, ?_, hq.rejected.mpr ⟨by decide, ?_⟩, hquorum.mpr (by decide +kernel)⟩
  · obtain ⟨⟨-, hreject, -⟩, -⟩ := tally_decides_exactly q
    rw [hreject, hexact]
    rfl
  · rw [hexact]
    decide

end AgentGovernance.Proposal

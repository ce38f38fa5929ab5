import AgentGovernance.Proofs.Consensus.Move

/-!
# Terminal proposals

A stored proposal is open for voting or in a terminal state, and a terminal state is where it stays.
What decides between the two is the exact rejecting weight: it is below the required weight as long
as the proposal can still be committed, and has reached it in a rejected one.
-/
namespace AgentGovernance.Consensus

/-- How the state of a stored proposal and its rejecting weight go together. -/
structure Sound (p : Proposal) : Prop where
  isOpen : p.state.isTerminal = false → p.state = .voting
  standing : p.state = .voting ∨ p.state = .committed → 0 < p.required.toNat →
    p.exactWeight .reject < p.required.toNat
  rejected : p.state = .rejected →
    0 < p.required.toNat ∧ p.required.toNat ≤ p.exactWeight .reject

theorem sound_of_no_votes {p : Proposal} (hvoting : p.state = .voting) (hvotes : p.votes = ∅) :
    Sound p := by
  have hweight : p.exactWeight .reject = 0 := by
    rw [Proposal.exactWeight, hvotes]
    rfl
  refine ⟨fun _ => hvoting, fun _ hpos => hweight ▸ hpos, fun h => ?_⟩
  rw [hvoting] at h
  cases h

theorem Revision.sound {p q : Proposal} {es : List Event} (h : Revision p q es) : Sound q := by
  cases h with
  | expire hdue =>
      refine ⟨fun h => ?_, fun h => ?_, fun h => ?_⟩
      · simp [ProposalState.isTerminal] at h
      · rcases h with h | h <;> cases h
      · cases h
  | @vote v hvoting _ _ hdown =>
      have hstate : (p.withVote v).state = .voting := hvoting
      refine ⟨fun _ => hstate, fun _ hpos => ?_, fun h => ?_⟩
      · have hweight := (p.withVote v).isVotedDown_iff.not.mp (by simp [hdown])
        by_contra hle
        exact hweight ⟨hpos, Nat.le_of_not_lt hle⟩
      · rw [hstate] at h
        cases h
  | @reject v _ _ _ hdown =>
      refine ⟨fun h => ?_, fun h => ?_, fun _ => (p.withVote v).isVotedDown_iff.mp hdown⟩
      · simp [ProposalState.isTerminal] at h
      · rcases h with h | h <;> cases h

theorem Sound.successor {p q : Proposal} (hp : Sound p) (h : Successor p q) : Sound q := by
  cases h with
  | same => exact hp
  | revised hr => exact hr.sound
  | committed hc =>
      refine ⟨fun h => ?_, fun _ hpos => hp.standing (.inl hc.voting) hpos, fun h => ?_⟩
      · simp [ProposalState.isTerminal] at h
      · cases h

namespace Run

variable (settings : Config.ConsensusSettings)

theorem after_sound (actions : List Action) {id : ProposalId} {p : Proposal}
    (hp : (after settings actions).engine.proposals.find? id = some p) : Sound p := by
  induction actions using List.reverseRecOn generalizing p with
  | nil => cases hp
  | append_singleton actions a ih =>
      obtain ⟨es, hmove, -⟩ := after_move settings actions a
      rcases hmove.find?_cases hp with ⟨q, hq, hqp⟩ | ⟨-, -, hvoting, hvotes⟩
      · exact (ih hq).successor hqp
      · exact sound_of_no_votes hvoting hvotes

theorem find?_append_of_isTerminal {actions more : List Action}
    (h : ((actions ++ more).filterMap Action.proposalId?).Nodup) {id : ProposalId} {p : Proposal}
    (hp : (after settings actions).engine.proposals.find? id = some p)
    (hterminal : p.state.isTerminal = true) :
    (after settings (actions ++ more)).engine.proposals.find? id = some p := by
  induction more using List.reverseRecOn with
  | nil => simpa using hp
  | append_singleton more a ih =>
      rw [← List.append_assoc] at h ⊢
      have hkept := ih (nodup_draws_of_append h)
      obtain ⟨es, hmove, -⟩ := after_move settings (actions ++ more) a
      obtain ⟨q, hq, hpq⟩ := hmove.find?_of_some hkept (proposalId_unused settings h id p hkept)
      rw [hq, hpq.eq_of_isTerminal hterminal]

end Run

/-- A stored proposal that is not terminal is open for voting; one that is terminal is the same in
every later state. The rejecting weight is short of the required one in a proposal that is open or
committed, unless none is required, and has reached it in a rejected one. -/
theorem terminal_or_voting (settings : Config.ConsensusSettings) (actions : List Action)
    (id : ProposalId) {p : Proposal}
    (hp : (Run.after settings actions).engine.proposals.find? id = some p) :
    (∀ more, ((actions ++ more).filterMap Action.proposalId?).Nodup → p.state.isTerminal = true →
        (Run.after settings (actions ++ more)).engine.proposals.find? id = some p) ∧
      (p.state.isTerminal = false → p.state = .voting) ∧
      (p.state = .voting ∨ p.state = .committed → 0 < p.required.toNat →
        p.exactWeight .reject < p.required.toNat) ∧
      (p.state = .rejected →
        0 < p.required.toNat ∧ p.required.toNat ≤ p.exactWeight .reject) := by
  have hsound := Run.after_sound settings actions hp
  refine ⟨?_, hsound.isOpen, hsound.standing, hsound.rejected⟩
  intro more h hterminal
  exact Run.find?_append_of_isTerminal settings h hp hterminal

/-- A vote and a sweep after the timeout leave a committed proposal as it was. -/
theorem terminal_or_voting_quickCommit :
    ∃ p, (Run.after {} quickCommit).engine.proposals.find? ⟨⟨1⟩⟩ = some p ∧
      p.exactWeight .reject < p.required.toNat ∧
      (Run.after {} (quickCommit ++
        [.vote ⟨⟨1⟩⟩ ⟨⟨"v2"⟩, .reject, 9, "s"⟩ ⟨5⟩,
         .expireOverdue ⟨1000000000000⟩])).engine.proposals.find? ⟨⟨1⟩⟩ = some p := by
  obtain ⟨hstays, -, hweight, -⟩ := terminal_or_voting {} quickCommit ⟨⟨1⟩⟩ rfl
  exact ⟨_, rfl, hweight (.inr rfl) (by decide), hstays _ (by decide) rfl⟩

end AgentGovernance.Consensus

import AgentGovernance.Proofs.Consensus.Move

/-!
# Commitments over whole runs

In every state that a run reaches, a proposal is committed exactly when one commitment names it, the
tables lead from the one to the other, and the votes still bear out what the commitment says.
Whatever commits answer, now or later, is that commitment.

The invariant `Consistent` speaks of the three tables only, and each of its parts is kept by a move
because a terminal proposal stays as it is and a drawn id was not in use.
-/
namespace AgentGovernance.Consensus

/-- A commitment that the tables lead to from its proposal and that shares it with no other. -/
structure SoleCommitment (s : Consensus) (id : ProposalId) (c : Commitment) : Prop where
  mapped : s.commitmentOf.find? id = some c.id
  stored : s.commitments.find? c.id = some c
  names : c.proposal = id
  sole : ∀ k d, s.commitments.find? k = some d → d.proposal = id → k = c.id ∧ d = c

/-- The votes of a proposal bear out a commitment. -/
structure Backs (p : Proposal) (c : Commitment) : Prop where
  hash : c.tallyHash = p.tallyHash
  inTime : c.timestamp < p.timeoutAt
  approved : p.required.toNat ≤ p.exactWeight .approve
  attended : p.floor.toNat ≤ p.exactParticipation

theorem Supports.backs {p : Proposal} {c : Commitment} (h : Supports p c) :
    Backs { p with state := .committed } c := by
  have hquorum := p.quorumReached_iff.mp h.quorum
  have htime : ¬p.timeoutAt ≤ c.timestamp := by simpa [Proposal.isPastTimeout] using h.inTime
  exact ⟨h.hash, Int.not_le.mp htime, hquorum.1, hquorum.2⟩

structure Consistent (s : Consensus) : Prop where
  committed : ∀ id p, s.proposals.find? id = some p → p.state = .committed →
    ∃ k, s.commitmentOf.find? id = some k
  mapped : ∀ id k, s.commitmentOf.find? id = some k →
    ∃ c, s.commitments.find? k = some c ∧ c.proposal = id
  stored : ∀ k c, s.commitments.find? k = some c → c.id = k ∧
    s.commitmentOf.find? c.proposal = some k ∧
    ∃ p, s.proposals.find? c.proposal = some p ∧ p.state = .committed ∧ Backs p c

namespace Consistent

variable {s t : Consensus} {a : Action} {es : List Event}

theorem empty : Consistent {} := by
  refine ⟨?_, ?_, ?_⟩ <;> intro _ _ h <;> cases h

theorem soleCommitment (hs : Consistent s) {id : ProposalId} {k : CommitmentId}
    (hk : s.commitmentOf.find? id = some k) : ∃ c, c.id = k ∧ s.SoleCommitment id c := by
  obtain ⟨c, hc, hid⟩ := hs.mapped id k hk
  obtain ⟨hck, -, -⟩ := hs.stored k c hc
  subst hck
  refine ⟨c, rfl, hk, hc, hid, ?_⟩
  intro l d hd hdid
  obtain ⟨-, hl, -⟩ := hs.stored l d hd
  rw [hdid, hk] at hl
  obtain rfl := Option.some.inj hl
  rw [hc] at hd
  exact ⟨rfl, (Option.some.inj hd).symm⟩

theorem commitmentFor_eq_some (hs : Consistent s) {id : ProposalId} {c : Commitment} :
    s.commitmentFor id = some c ↔ s.SoleCommitment id c := by
  constructor
  · intro h
    obtain ⟨k, hk, hc⟩ := Option.bind_eq_some_iff.mp h
    obtain ⟨d, rfl, hd⟩ := hs.soleCommitment hk
    rw [hd.stored] at hc
    exact Option.some.inj hc ▸ hd
  · intro h
    exact Option.bind_eq_some_iff.mpr ⟨c.id, h.mapped, h.stored⟩

theorem commitmentOf_eq_none (hs : Consistent s) {id : ProposalId}
    (h : s.commitmentFor id = none) : s.commitmentOf.find? id = none := by
  cases hk : s.commitmentOf.find? id with
  | none => rfl
  | some k =>
      obtain ⟨c, -, hc⟩ := hs.soleCommitment hk
      rw [hs.commitmentFor_eq_some.mpr hc] at h
      cases h

/-- A proposal is committed exactly when it has a commitment. -/
theorem committed_iff (hs : Consistent s) {id : ProposalId} {p : Proposal}
    (hp : s.proposals.find? id = some p) :
    p.state = .committed ↔ ∃ c, s.SoleCommitment id c := by
  constructor
  · intro hstate
    obtain ⟨k, hk⟩ := hs.committed id p hp hstate
    obtain ⟨c, -, hc⟩ := hs.soleCommitment hk
    exact ⟨c, hc⟩
  · rintro ⟨c, hc⟩
    obtain ⟨-, -, q, hq, hstate, -⟩ := hs.stored c.id c hc.stored
    rw [hc.names, hp] at hq
    exact Option.some.inj hq ▸ hstate

theorem backs (hs : Consistent s) {id : ProposalId} {p : Proposal} {c : Commitment}
    (hp : s.proposals.find? id = some p) (hc : s.SoleCommitment id c) : Backs p c := by
  obtain ⟨-, -, q, hq, -, hback⟩ := hs.stored c.id c hc.stored
  rw [hc.names, hp] at hq
  exact Option.some.inj hq ▸ hback

/-- A new commitment for a proposal that has none. -/
theorem withCommitment (hs : Consistent s) {p : Proposal} {c : Commitment}
    (hnone : s.commitmentFor p.id = none) (hc : Supports p c)
    (hfresh : s.commitments.find? c.id = none) :
    Consistent (s.withCommitment { p with state := .committed } c) := by
  have hunmapped := hs.commitmentOf_eq_none hnone
  refine ⟨?_, ?_, ?_⟩ <;> simp only [Consensus.withCommitment, Table.find?_insert]
  · intro id q hq hstate
    split at hq
    next h => exact ⟨c.id, if_pos h⟩
    next h =>
      rw [if_neg h]
      exact hs.committed id q hq hstate
  · intro id k hk
    split at hk
    next h =>
      obtain rfl := Option.some.inj hk
      exact ⟨c, if_pos rfl, hc.names.trans h.symm⟩
    next h =>
      obtain ⟨d, hd, hdid⟩ := hs.mapped id k hk
      have hne : k ≠ c.id := by
        rintro rfl
        rw [hfresh] at hd
        cases hd
      exact ⟨d, (if_neg hne).trans hd, hdid⟩
  · intro k d hd
    split at hd
    next h =>
      obtain rfl := Option.some.inj hd
      exact ⟨h.symm, h ▸ if_pos hc.names, _, if_pos hc.names, rfl, hc.backs⟩
    next h =>
      obtain ⟨hid, hmap, q, hq, hstate, hback⟩ := hs.stored k d hd
      have hne : d.proposal ≠ p.id := by
        intro he
        rw [he, hunmapped] at hmap
        cases hmap
      exact ⟨hid, (if_neg hne).trans hmap, q, (if_neg hne).trans hq, hstate, hback⟩

theorem move (hs : Consistent s) (h : Move a s t es)
    (hp : ∀ id p, s.proposals.find? id = some p → a.proposalId? ≠ some id)
    (hc : ∀ id c, s.commitments.find? id = some c → a.commitmentId? ≠ some id) :
    Consistent t := by
  rcases h.commitments_cases with ⟨htable, hmap, hcommitted⟩ | ⟨p, c, ha, hpid, hnone, hsup, rfl⟩
  · refine ⟨?_, ?_, ?_⟩ <;> rw [hmap]
    · intro id q hq hstate
      exact hs.committed id q (hcommitted id q hq hstate) hstate
    · rw [htable]
      exact hs.mapped
    · rw [htable]
      intro k c hk
      obtain ⟨hid, hof, p, hpid, hstate, hback⟩ := hs.stored k c hk
      obtain ⟨q, hq, hpq⟩ := h.find?_of_some hpid (hp c.proposal p hpid)
      have hterminal : p.state.isTerminal = true := by rw [hstate]; rfl
      obtain rfl := hpq.eq_of_isTerminal hterminal
      exact ⟨hid, hof, q, hq, hstate, hback⟩
  · refine hs.withCommitment hnone hsup ?_
    cases hfind : s.commitments.find? c.id with
    | none => rfl
    | some d => exact absurd ha (hc c.id d hfind)

/-- The commitment of a proposal stays its commitment. -/
theorem commitmentFor_move (hs : Consistent s) (h : Move a s t es)
    (hc : ∀ id c, s.commitments.find? id = some c → a.commitmentId? ≠ some id)
    {id : ProposalId} {c : Commitment} (hfor : s.commitmentFor id = some c) :
    t.commitmentFor id = some c := by
  rcases h.commitments_cases with ⟨htable, hmap, -⟩ | ⟨p, d, ha, -, hnone, -, rfl⟩
  · rw [commitmentFor, htable, hmap]
    exact hfor
  · have hsole := hs.commitmentFor_eq_some.mp hfor
    have hid : id ≠ p.id := by
      rintro rfl
      rw [hnone] at hfor
      cases hfor
    have hk : c.id ≠ d.id := by
      intro he
      exact hc c.id c hsole.stored (he ▸ ha)
    simp only [commitmentFor, Consensus.withCommitment, Table.find?_insert, if_neg hid,
      hsole.mapped, Option.bind_some, if_neg hk, hsole.stored]

end Consistent

/-! ## Answers -/

variable {s : Consensus}

theorem openCommit_already {id : ProposalId} {agreement : Option AgreementRef}
    {deadline : Option Nat} {tick : Nat} {now : Instant} {c : Commitment}
    (h : (s.openCommit id agreement deadline tick now).result = .ok (.already c)) :
    (s.openCommit id agreement deadline tick now).state.commitmentFor id = some c := by
  simp only [openCommit, Outcome.andThen] at h ⊢
  split at h
  · cases h
  next p hp =>
    simp only at h ⊢
    split at h
    next d hd =>
      have hcd : d = c := by simpa [Outcome.ok] using h
      simpa only [hp, hcd, Outcome.ok] using hcd ▸ hd
    next =>
      split at h
      · cases h
      · split at h <;> simp [Outcome.refuse, Outcome.ok] at h

/-- The commitment that is returned is the one that the tables lead to. -/
theorem Completion.commitmentFor_eq {proofs : ProofSystem} {id : ProposalId} {k : CommitmentId}
    {now : Instant} {o : Outcome Consensus Commitment} (h : Completion s proofs id k now o)
    (hs : s.Keyed) {c : Commitment} (hc : o.result = .ok c) :
    o.state.commitmentFor id = some c := by
  cases h with
  | already hd =>
      cases hc
      exact hd
  | refuse | expire => cases hc
  | @commit p _ hp =>
      cases hc
      obtain rfl := hs id p hp
      simp only [Outcome.ok, commitmentFor, withCommitment, Table.find?_insert_self,
        Option.bind_some]

namespace Run

variable (settings : Config.ConsensusSettings)

/-- A commit that ends well returns the commitment that the tables now hold. -/
theorem step_answers {r : Run} (hs : r.engine.Keyed) (a : Action) {x : Answer} {c : Commitment}
    (hx : x ∈ (r.step settings a).answers) (hc : x.result = .ok c) :
    x ∈ r.answers ∨ (r.step settings a).engine.commitmentFor x.proposal = some c := by
  cases a with
  | propose | vote | get | tally | expireOverdue => exact .inl hx
  | openCommit id agreement deadline tick now =>
      simp only [step, opened_engine]
      simp only [step, opened] at hx
      split at hx
      next f hf =>
        rcases mem_answers_answer.mp hx with hx | rfl
        · exact .inl hx
        · cases hc
      next d hd =>
        rcases mem_answers_answer.mp hx with hx | rfl
        · exact .inl hx
        · obtain rfl : d = c := by simpa using hc
          exact .inr (openCommit_already hd)
      next => exact .inl hx
  | closeCommit place judgement proofs fresh now =>
      simp only [step] at hx ⊢
      split at hx
      next => exact .inl hx
      next call hcall =>
        rcases mem_answers_answer.mp hx with hx | rfl
        · exact .inl hx
        · have hcompletion := closeCommit_completion hs proofs fresh now call judgement
          exact .inr (hcompletion.commitmentFor_eq hs hc)
  | abandonCommit place =>
      simp only [step] at hx
      split at hx
      next => exact .inl hx
      next =>
        rcases mem_answers_answer.mp hx with hx | rfl
        · exact .inl hx
        · cases hc

/-- The tables stay consistent, and every commitment that was returned is still in its place. -/
structure Settled (r : Run) : Prop where
  consistent : r.engine.Consistent
  answers : ∀ x ∈ r.answers, ∀ c, x.result = .ok c → r.engine.commitmentFor x.proposal = some c

end Run

theorem DistinctIds.of_append {actions more : List Action} (h : DistinctIds (actions ++ more)) :
    DistinctIds actions := by
  have hp := h.proposals
  have hc := h.commitments
  rw [List.filterMap_append, List.nodup_append] at hp hc
  exact ⟨hp.1, hc.1⟩

namespace Run

variable (settings : Config.ConsensusSettings)

/-- One action: what was consistent stays so and no commitment is replaced. -/
theorem Settled.concat {actions : List Action} {a : Action} (h : DistinctIds (actions ++ [a]))
    (hr : Settled (after settings actions)) :
    Settled (after settings (actions ++ [a])) ∧
      ∀ id c, (after settings actions).engine.commitmentFor id = some c →
        (after settings (actions ++ [a])).engine.commitmentFor id = some c := by
  obtain ⟨es, hmove, -⟩ := after_move settings actions a
  have hp := proposalId_unused settings h.proposals
  have hc := commitmentId_unused settings h.commitments
  have hkeep : ∀ id c, (after settings actions).engine.commitmentFor id = some c →
      (after settings (actions ++ [a])).engine.commitmentFor id = some c :=
    fun _ _ => hr.consistent.commitmentFor_move hmove hc
  refine ⟨⟨hr.consistent.move hmove hp hc, ?_⟩, hkeep⟩
  intro x hx c hxc
  rw [after_concat] at hx hkeep ⊢
  rcases step_answers settings (after_keyed settings actions) a hx hxc with hold | hnew
  · exact hkeep x.proposal c (hr.answers x hold c hxc)
  · exact hnew

theorem after_settled {actions : List Action} (h : DistinctIds actions) :
    Settled (after settings actions) := by
  induction actions using List.reverseRecOn with
  | nil => exact ⟨.empty, fun x hx => by cases hx⟩
  | append_singleton actions a ih => exact ((ih h.of_append).concat settings h).1

theorem commitmentFor_append {actions more : List Action} (h : DistinctIds (actions ++ more))
    {id : ProposalId} {c : Commitment}
    (hc : (after settings actions).engine.commitmentFor id = some c) :
    (after settings (actions ++ more)).engine.commitmentFor id = some c := by
  induction more using List.reverseRecOn with
  | nil => simpa using hc
  | append_singleton more a ih =>
      rw [← List.append_assoc] at h ⊢
      have hd := h.of_append
      exact ((after_settled settings hd).concat settings h).2 id c (ih hd)

end Run

/-- In every state of a run, and for every way in which the run goes on, a stored proposal is
committed exactly when it has a commitment of its own. The votes bear that commitment out, and it is
the one that every commit of the proposal returns that ends well, before or after. -/
theorem committed_iff_soleCommitment (settings : Config.ConsensusSettings)
    {actions more : List Action} (h : DistinctIds (actions ++ more)) (id : ProposalId)
    {p : Proposal} (hp : (Run.after settings actions).engine.proposals.find? id = some p) :
    (p.state = .committed ↔ ∃ c, (Run.after settings actions).engine.SoleCommitment id c) ∧
      (∀ c, (Run.after settings actions).engine.SoleCommitment id c →
        Backs p c ∧
          ∀ x ∈ (Run.after settings (actions ++ more)).answers, x.proposal = id →
            ∀ d, x.result = .ok d → d = c) ∧
      ∀ x ∈ (Run.after settings actions).answers, x.proposal = id →
        ∀ d, x.result = .ok d → (Run.after settings actions).engine.SoleCommitment id d := by
  have hnow := Run.after_settled settings h.of_append
  have hlater := Run.after_settled settings h
  refine ⟨hnow.consistent.committed_iff hp, ?_, ?_⟩
  · intro c hc
    refine ⟨hnow.consistent.backs hp hc, ?_⟩
    rintro x hx rfl d hd
    have hkept := Run.commitmentFor_append settings h (hnow.consistent.commitmentFor_eq_some.mpr hc)
    rw [hlater.answers x hx d hd] at hkept
    exact Option.some.inj hkept
  · rintro x hx rfl d hd
    exact hnow.consistent.commitmentFor_eq_some.mp (hnow.answers x hx d hd)

theorem committed_iff_soleCommitment_quickCommit :
    DistinctIds (quickCommit ++ [.openCommit ⟨⟨1⟩⟩ none (some 0) 0 ⟨9⟩]) ∧
      ∃ p, (Run.after {} quickCommit).engine.proposals.find? ⟨⟨1⟩⟩ = some p ∧
        p.state = .committed ∧
        ∃ c, (Run.after {} quickCommit).engine.SoleCommitment ⟨⟨1⟩⟩ c ∧ Backs p c ∧
          ∀ x ∈ (Run.after {} (quickCommit ++
              [.openCommit ⟨⟨1⟩⟩ none (some 0) 0 ⟨9⟩])).answers,
            x.proposal = ⟨⟨1⟩⟩ → ∀ d, x.result = .ok d → d = c := by
  have h : DistinctIds (quickCommit ++ [.openCommit ⟨⟨1⟩⟩ none (some 0) 0 ⟨9⟩]) :=
    ⟨by decide, by decide⟩
  obtain ⟨hiff, hall, -⟩ := committed_iff_soleCommitment {} h ⟨⟨1⟩⟩ rfl
  obtain ⟨c, hc⟩ := hiff.mp rfl
  exact ⟨h, _, rfl, rfl, c, hc, hall c hc⟩

end AgentGovernance.Consensus

import AgentGovernance.Proofs.Consensus.Expiry
import AgentGovernance.Proofs.Consensus.Verdict

/-!
# What a missing quorum is called

A quorum takes enough approving weight and enough weight of all votes, but the refusal for want of
one quotes the approving weight and the required weight alone, the first as less than the second.
Both parts of a commit can refuse so, and votes may come in between. The refusal is true if the
approving weight is short. If it is not, then the floor has been missed, and the refusal calls a
weight too small that is large enough.
-/
namespace AgentGovernance

namespace Proposal

variable {p : Proposal} {approve required : UInt64}

/-- A proposal that lacks nothing but the quorum, in exact weights. -/
structure Short (p : Proposal) : Prop where
  voting : p.state = .voting
  missed : p.exactWeight .approve < p.required.toNat ∨ p.exactParticipation < p.floor.toNat

theorem ensureCommittable_eq_quorumNotReached_iff :
    p.ensureCommittable = .error (.quorumNotReached approve required) ↔
      p.Short ∧ p.tally.approve = approve ∧ p.required = required := by
  unfold ensureCommittable
  split
  next hclosed => exact ⟨nofun, fun h => absurd h.1.voting hclosed⟩
  next hopen =>
    have hvoting : p.state = .voting := not_not.mp hopen
    cases hquorum : p.tally.quorumReached with
    | true =>
        refine ⟨nofun, fun h => ?_⟩
        rw [p.quorumReached_eq_false_iff.mpr h.1.missed] at hquorum
        cases hquorum
    | false =>
        have hshort : p.Short := ⟨hvoting, p.quorumReached_eq_false_iff.mp hquorum⟩
        simp [hshort]

end Proposal

namespace Consensus

/-- A proposal that a commit refuses for want of a quorum and for nothing else. -/
structure FallsShort (s : Consensus) (id : ProposalId) (now : Instant) (p : Proposal) : Prop where
  stored : s.proposals.find? id = some p
  uncommitted : s.commitmentFor id = none
  inTime : now < p.timeoutAt
  short : p.Short

variable {s : Consensus} {id : ProposalId} {agreement : Option AgreementRef} {deadline : Option Nat}
  {tick : Nat} {now : Instant} {proofs : ProofSystem} {fresh : Uuid} {p : Proposal}
  {approve required : UInt64}

theorem ensureOpen_eq_quorumNotReached_iff :
    ensureOpen p = .error (.quorumNotReached approve required) ↔
      p.Short ∧ p.tally.approve = approve ∧ p.required = required := by
  unfold ensureOpen
  split
  next hexpired =>
    refine ⟨nofun, fun h => ?_⟩
    rw [h.1.voting] at hexpired
    cases hexpired
  next => exact Proposal.ensureCommittable_eq_quorumNotReached_iff

/-- The proof system is not asked about a proposal without a quorum, and never refuses so itself. -/
theorem attest_eq_quorumNotReached_iff :
    attest proofs p = .error (.quorumNotReached approve required) ↔
      p.Short ∧ p.tally.approve = approve ∧ p.required = required := by
  rw [← Proposal.ensureCommittable_eq_quorumNotReached_iff]
  cases hopen : p.ensureCommittable with
  | error f => simp [attest, hopen, bind, Except.bind]
  | ok u =>
      obtain ⟨hvoting, hquorum⟩ : p.state = .voting ∧ p.tally.quorumReached = true := by
        cases hstate : p.state <;> cases hquorum : p.tally.quorumReached <;>
          simp [Proposal.ensureCommittable, hstate, hquorum] at hopen ⊢
      rw [attest_of_voting proofs hvoting hquorum]
      cases proofs.attest ⟨p.id.uuid.text, p.tallyHash⟩ <;>
        simp [Except.map, Except.mapError, Failure.ofProof]

theorem inTime_of_short (hshort : p.Short) (hopen : p.isOverdue now = false) :
    now < p.timeoutAt := by
  rw [Bool.eq_false_iff, Ne, isOverdue_of_voting hshort.voting] at hopen
  exact Int.not_le.mp hopen

/-! ## The parts of a commit -/

theorem fallsShort_of_openCommit (hs : s.Keyed)
    (h : (s.openCommit id agreement deadline tick now).result =
      .error (.quorumNotReached approve required)) :
    ∃ p, FallsShort s id now p ∧ p.tally.approve = approve ∧ p.required = required := by
  cases hp : s.proposals.find? id with
  | none =>
      rw [openCommit_of_none hp] at h
      cases h
  | some p =>
      cases hdue : p.isOverdue now with
      | true =>
          rcases openCommit_of_due hs (isDue_eq_true.mpr ⟨p, hp, hdue⟩) with ⟨c, hc⟩ | ⟨q, hq⟩
          · rw [hc] at h
            cases h
          · rw [hq.result] at h
            cases h
      | false =>
          cases hcommitment : s.commitmentFor id with
          | some c =>
              rw [openCommit_of_commitment hp hdue hcommitment] at h
              cases h
          | none =>
              cases hclosed : ensureOpen p with
              | ok u =>
                  rw [openCommit_of_committable hp hdue hcommitment hclosed] at h
                  split at h <;> cases h
              | error f =>
                  rw [openCommit_of_closed hp hdue hcommitment hclosed] at h
                  cases h
                  obtain ⟨hshort, hweights⟩ := ensureOpen_eq_quorumNotReached_iff.mp hclosed
                  exact ⟨p, ⟨hp, hcommitment, inTime_of_short hshort hdue, hshort⟩, hweights⟩

theorem openCommit_eq_quorumNotReached_iff (hs : s.Keyed) :
    (s.openCommit id agreement deadline tick now).result =
        .error (.quorumNotReached approve required) ↔
      ∃ p, FallsShort s id now p ∧ p.tally.approve = approve ∧ p.required = required := by
  refine ⟨fallsShort_of_openCommit hs, ?_⟩
  rintro ⟨p, hp, hweights⟩
  rw [openCommit_of_closed hp.stored (isOverdue_of_inTime hp.short.voting hp.inTime)
    hp.uncommitted (ensureOpen_eq_quorumNotReached_iff.mpr ⟨hp.short, hweights⟩)]
  rfl

theorem fallsShort_of_finalize
    (h : (s.finalize proofs id agreement fresh now).result =
      .error (.quorumNotReached approve required)) :
    ∃ p, FallsShort s id now p ∧ p.tally.approve = approve ∧ p.required = required := by
  unfold finalize at h
  split at h
  next => cases h
  next => cases h
  next p hcommitment hp =>
    split at h
    next => cases h
    next hopen =>
      split at h
      next f hattest =>
        cases h
        obtain ⟨hshort, hweights⟩ := attest_eq_quorumNotReached_iff.mp hattest
        have hintime := inTime_of_short hshort (Bool.eq_false_iff.mpr hopen)
        exact ⟨p, ⟨hp, hcommitment, hintime, hshort⟩, hweights⟩
      next => cases h

theorem finalize_eq_quorumNotReached_iff :
    (s.finalize proofs id agreement fresh now).result =
        .error (.quorumNotReached approve required) ↔
      ∃ p, FallsShort s id now p ∧ p.tally.approve = approve ∧ p.required = required := by
  refine ⟨fallsShort_of_finalize, ?_⟩
  rintro ⟨p, hp, hweights⟩
  have hopen := isOverdue_of_inTime hp.short.voting hp.inTime
  have hattest : attest proofs p = .error (.quorumNotReached approve required) :=
    attest_eq_quorumNotReached_iff.mpr ⟨hp.short, hweights⟩
  simp [finalize, hp.uncommitted, hp.stored, hopen, hattest, Outcome.refuse]

/-- Whether a commit may go on. Without an agreement there is nothing to be judged. -/
def OpenCommit.isCleared (call : OpenCommit) (judgement : Except PolicyError Decision) : Bool :=
  call.agreement.isNone || judgement.toOption.any (·.compliant)

theorem closeCommit_eq_quorumNotReached_iff {call : OpenCommit}
    {judgement : Except PolicyError Decision} :
    (s.closeCommit proofs fresh now call judgement).result =
        .error (.quorumNotReached approve required) ↔
      call.isCleared judgement = true ∧ ∃ p, FallsShort s call.proposal now p ∧
        p.tally.approve = approve ∧ p.required = required := by
  unfold closeCommit
  split
  next agreement hagreement =>
    cases judgement with
    | error e =>
        have hheld : call.isCleared (.error e) = false := by
          simp [OpenCommit.isCleared, hagreement, Except.toOption]
        refine iff_of_false (fun h => ?_) fun h => ?_
        · cases h
        · rw [hheld] at h
          cases h.1
    | ok d =>
        have hcleared : call.isCleared (.ok d) = d.compliant := by
          simp [OpenCommit.isCleared, hagreement, Except.toOption]
        rw [finishCommit, hcleared]
        cases d.compliant with
        | false =>
            refine iff_of_false (fun h => ?_) fun h => ?_
            · cases h
            · cases h.1
        | true => simp [finalize_eq_quorumNotReached_iff]
  next hagreement =>
    rw [finalize_eq_quorumNotReached_iff, OpenCommit.isCleared, hagreement]
    simp

/-! ## Runs -/

/-- The proposal whose quorum a part of a commit comes to look at, and when. The second part does
not come to it if the judgement is against the commit. -/
def Run.looksAt? (r : Run) : Action → Option (ProposalId × Instant)
  | .openCommit id _ _ _ now => some (id, now)
  | .closeCommit place judgement _ _ now =>
      (r.pending[place]?).bind fun call =>
        if call.isCleared judgement then some (call.proposal, now) else none
  | _ => none

theorem Run.opened_answers_iff (r : Run) {jd : ProposalId} {o : Outcome Consensus CommitStart}
    {f : Failure} :
    (r.opened jd o).answers = r.answers ++ [⟨id, .error f⟩] ↔ jd = id ∧ o.result = .error f := by
  unfold opened
  split <;> simp [*, answer, apply]

theorem Run.closed_answers_iff (r : Run) {place : Nat} {jd : ProposalId}
    {o : Outcome Consensus Commitment} {f : Failure} :
    (r.closed place jd o).answers = r.answers ++ [⟨id, .error f⟩] ↔
      jd = id ∧ o.result = .error f := by
  simp [closed, answer, withoutPending, apply]

theorem Run.step_refuses_iff (settings : Config.ConsensusSettings) {r : Run}
    (hs : r.engine.Keyed) (a : Action) :
    (r.step settings a).answers =
        r.answers ++ [⟨id, .error (.quorumNotReached approve required)⟩] ↔
      ∃ now p, r.looksAt? a = some (id, now) ∧ FallsShort r.engine id now p ∧
        p.tally.approve = approve ∧ p.required = required := by
  cases a with
  | propose | vote | get | tally | expireOverdue => simp [step, apply, looksAt?]
  | openCommit jd agreement deadline tick now =>
      rw [step, opened_answers_iff, openCommit_eq_quorumNotReached_iff hs]
      simp only [looksAt?, Option.some.injEq, Prod.mk.injEq]
      constructor
      · rintro ⟨rfl, p, hp⟩
        exact ⟨now, p, ⟨rfl, rfl⟩, hp⟩
      · rintro ⟨_, p, ⟨rfl, rfl⟩, hp⟩
        exact ⟨rfl, p, hp⟩
  | closeCommit place judgement proofs fresh now =>
      cases hcall : r.pending[place]? with
      | none => simp [step, looksAt?, hcall]
      | some call =>
          simp only [step, hcall]
          rw [closed_answers_iff, closeCommit_eq_quorumNotReached_iff]
          simp only [looksAt?, hcall, Option.bind_some, Option.ite_none_right_eq_some,
            Option.some.injEq, Prod.mk.injEq]
          constructor
          · rintro ⟨rfl, hcleared, p, hp⟩
            exact ⟨now, p, ⟨hcleared, rfl, rfl⟩, hp⟩
          · rintro ⟨_, p, ⟨hcleared, rfl, rfl⟩, hp⟩
            exact ⟨rfl, hcleared, p, hp⟩
  | abandonCommit place =>
      cases hcall : r.pending[place]? with
      | none => simp [step, looksAt?, hcall]
      | some call => simp [step, looksAt?, hcall, answer, withoutPending]

/-- In every run a part of a commit refuses for want of a quorum exactly if it looks at a proposal
that falls short of one, and quotes the weights of that proposal. What it says of them is true
exactly if the approvals fall short; otherwise they suffice, and too few took part. -/
theorem quorum_refusal_truthful_iff (settings : Config.ConsensusSettings) (actions : List Action)
    (a : Action) (id : ProposalId) (approve required : UInt64) :
    let r := Run.after settings actions
    ((Run.after settings (actions ++ [a])).answers =
        r.answers ++ [⟨id, .error (.quorumNotReached approve required)⟩] ↔
      ∃ now p, r.looksAt? a = some (id, now) ∧ FallsShort r.engine id now p ∧
        p.tally.approve = approve ∧ p.required = required) ∧
    ∀ now p, FallsShort r.engine id now p →
      (p.tally.approve < p.required ↔ p.exactWeight .approve < p.required.toNat) ∧
      (¬ p.tally.approve < p.required ↔
        p.required.toNat ≤ p.exactWeight .approve ∧ p.exactParticipation < p.floor.toNat) := by
  intro r
  rw [Run.after_concat]
  refine ⟨Run.step_refuses_iff settings (Run.after_keyed settings actions) a, ?_⟩
  intro now p hp
  have hmissed := hp.short.missed
  rw [p.approve_lt_required_iff]
  omega

/-- One vote approves, which is all that is required but a third of the floor. -/
def loneApproval : List Action :=
  [.propose ⟨⟨⟨7⟩⟩, "deploy", 1, none, some 3⟩ ⟨1⟩ ⟨0⟩,
   .vote ⟨⟨1⟩⟩ ⟨⟨"v1"⟩, .approve, 1, "s"⟩ ⟨5⟩]

/-- One is then called less than one, since the floor has been missed. -/
theorem quorum_refusal_truthful_iff_loneApproval :
    (Run.after {} (loneApproval ++ [.openCommit ⟨⟨1⟩⟩ none none 0 ⟨6⟩])).answers =
        [⟨⟨⟨1⟩⟩, .error (.quorumNotReached 1 1)⟩] ∧
      ∃ p, (Run.after {} loneApproval).engine.proposals.find? ⟨⟨1⟩⟩ = some p ∧
        p.required.toNat ≤ p.exactWeight .approve ∧ p.exactParticipation < p.floor.toNat := by
  obtain ⟨hrefuses, htruth⟩ := quorum_refusal_truthful_iff {} loneApproval
    (.openCommit ⟨⟨1⟩⟩ none none 0 ⟨6⟩) ⟨⟨1⟩⟩ 1 1
  obtain ⟨p, hp, happrove, hrequired⟩ : ∃ p,
      FallsShort (Run.after {} loneApproval).engine ⟨⟨1⟩⟩ ⟨6⟩ p ∧ p.tally.approve = 1 ∧
        p.required = 1 :=
    ⟨_, ⟨rfl, rfl, by decide, rfl, .inr (by decide)⟩, rfl, rfl⟩
  have hsuffices : ¬ p.tally.approve < p.required := by
    rw [happrove, hrequired]
    decide
  exact ⟨hrefuses.mpr ⟨⟨6⟩, p, rfl, hp, happrove, hrequired⟩, p, hp.stored,
    (htruth ⟨6⟩ p hp).2.mp hsuffices⟩

end Consensus

end AgentGovernance

import AgentGovernance.Proofs.Consensus.Commitments
import AgentGovernance.Proofs.Consensus.Refusal
import AgentGovernance.Proofs.Lifecycle.Run

/-!
# When a commit succeeds

A commit that nothing interrupts, at one reading of the clock, looks at its proposal twice, and in
between asks the policy authority if there is an agreement. What it comes to can be read off the
proposal: it needs an open vote, a quorum in exact weights, a judgement that comes before the
deadline and is favourable, and a proof. If one of these is missing the failure says which, the
state of the proposal first.
-/
namespace AgentGovernance.Consensus

/-- A policy authority that takes its time: a reply is there at a tick of the clock that measures
waiting. -/
structure Authority where
  reply : (r : Request) → r.Reply
  ready : Request → Nat

/-- A commit that nothing interrupts while the clock stands still. A reply that is there at the tick
of the deadline is in time. -/
def commitUnder (s : Consensus) (policy : Authority) (proofs : ProofSystem) (id : ProposalId)
    (agreement : Option AgreementRef) (deadline : Option Nat) (tick : Nat) (fresh : Uuid)
    (now : Instant) : Outcome Consensus Commitment :=
  (s.startCommit proofs id agreement deadline tick fresh now now).andThen fun s progress =>
    match progress with
    | .finished c => .ok s c
    | .waiting call =>
        if call.deadline.any (· < policy.ready call.request) then
          .refuse s (.timeout (.missed "commit" .whileRunning))
        else s.finishCommit proofs fresh now call (policy.reply call.request)

/-- What the policy authority is asked about a commit under an agreement. -/
def question (p : Proposal) (agreement : AgreementRef) : Request :=
  .judge agreement (commitAction p.type)

/-- Whether the policy step of a commit is done before its deadline, under an agreement or not. -/
structure Prompt (policy : Authority) (p : Proposal) (agreement : Option AgreementRef)
    (deadline : Option Nat) (tick : Nat) : Prop where
  begun : ∀ d ∈ deadline, tick < d
  judged : ∀ r ∈ agreement, ∀ d ∈ deadline, policy.ready (question p r) ≤ d

/-- Whether a commit is found compliant, which takes an agreement to be judged at all. -/
def Compliant (policy : Authority) (p : Proposal) (agreement : Option AgreementRef) : Prop :=
  ∀ r ∈ agreement, ∃ d, policy.reply (question p r) = .ok d ∧ d.compliant = true

/-- What it takes to commit a proposal that has no commitment. -/
structure Passes (policy : Authority) (proofs : ProofSystem) (p : Proposal)
    (agreement : Option AgreementRef) (deadline : Option Nat) (tick : Nat) (now : Instant) :
    Prop where
  voting : p.state = .voting
  inTime : now < p.timeoutAt
  approved : p.required.toNat ≤ p.exactWeight .approve
  attended : p.floor.toNat ≤ p.exactParticipation
  prompt : Prompt policy p agreement deadline tick
  compliant : Compliant policy p agreement
  attested : ∃ proof, proofs.attest ⟨p.id.uuid.text, p.tallyHash⟩ = .ok proof

variable {s : Consensus} {policy : Authority} {proofs : ProofSystem} {id : ProposalId}
  {agreement : Option AgreementRef} {deadline : Option Nat} {tick : Nat} {fresh : Uuid}
  {now : Instant} {p : Proposal}

/-! ## Proposals -/

theorem isOverdue_of_voting (hvoting : p.state = .voting) :
    p.isOverdue now = true ↔ p.timeoutAt ≤ now := by
  simp [Proposal.isOverdue, Proposal.isPastTimeout, hvoting, ProposalState.isTerminal]

theorem isOverdue_of_inTime (hvoting : p.state = .voting) (hintime : now < p.timeoutAt) :
    p.isOverdue now = false := by
  rw [Bool.eq_false_iff, Ne, isOverdue_of_voting hvoting]
  exact Int.not_le.mpr hintime

theorem isOverdue_of_isTerminal (h : p.state.isTerminal = true) : p.isOverdue now = false := by
  simp [Proposal.isOverdue, h]

theorem ensureOpen_eq_ok_iff :
    ensureOpen p = .ok () ↔ p.state = .voting ∧ p.required.toNat ≤ p.exactWeight .approve ∧
      p.floor.toNat ≤ p.exactParticipation := by
  rw [← p.quorumReached_iff, ensureOpen, Proposal.ensureCommittable]
  cases hstate : p.state <;> cases hquorum : p.tally.quorumReached <;> simp

theorem ensureOpen_of_expired (h : p.state = .expired) :
    ensureOpen p = .error (.expired p.id.uuid.text) := if_pos h

theorem ensureOpen_of_rejected (h : p.state = .rejected) :
    ensureOpen p = .error (.invalidState (.notCommittable p.id .rejected)) := by
  simp [ensureOpen, Proposal.ensureCommittable, h]

theorem ensureOpen_of_short (hvoting : p.state = .voting)
    (hshort : p.exactWeight .approve < p.required.toNat ∨
      p.exactParticipation < p.floor.toNat) :
    ensureOpen p = .error (.quorumNotReached p.tally.approve p.required) := by
  have hquorum := p.quorumReached_eq_false_iff.mpr hshort
  simp [ensureOpen, Proposal.ensureCommittable, hvoting, hquorum]

variable (proofs) in
theorem attest_of_voting (hvoting : p.state = .voting) (hquorum : p.tally.quorumReached = true) :
    attest proofs p = ((proofs.attest ⟨p.id.uuid.text, p.tallyHash⟩).mapError Failure.ofProof).map
      fun proof => ({ p with state := .committed }, p.tallyHash, proof) := by
  have hopen : p.ensureCommittable = .ok () := by
    simp [Proposal.ensureCommittable, hvoting, hquorum]
  have hmarked : p.markCommitted = .ok { p with state := .committed } := by
    simp [Proposal.markCommitted, Proposal.move, hvoting]
  cases hproof : proofs.attest ⟨p.id.uuid.text, p.tallyHash⟩ with
  | error e => simp only [attest, hopen, hproof]; rfl
  | ok proof => simp only [attest, hopen, hproof, hmarked]; rfl

/-! ## The first part -/

/-- A part that succeeds without a trace leaves the next one to say what comes of it. -/
theorem ok_andThen {α β : Type} (s : Consensus) (a : α)
    (next : Consensus → α → Outcome Consensus β) : (Outcome.ok s a).andThen next = next s a := rfl

theorem read_of_open (hp : s.proposals.find? id = some p) (hopen : p.isOverdue now = false) :
    s.read id now = .ok s p := by
  simp [read, hp, hopen]

theorem openCommit_of_none (hnone : s.proposals.find? id = none) :
    s.openCommit id agreement deadline tick now = .refuse s (notFound id) := by
  rw [openCommit, read, hnone]
  rfl

variable (agreement deadline tick) in
theorem openCommit_of_overdue (hs : s.Keyed) (hcommitment : s.commitmentFor id = none)
    (hdue : s.isDue id now = true) :
    ∃ p, OnlyExpires s id now p (s.openCommit id agreement deadline tick now) := by
  refine (openCommit_of_due hs hdue).resolve_left ?_
  rintro ⟨c, hc⟩
  have hkept := openCommit_already hc
  obtain ⟨p, -, -, hread⟩ := read_of_due hdue
  rw [(openCommit_eq_read id agreement deadline tick now).1, hread] at hkept
  have hsame : s.commitmentFor id = some c := hkept
  rw [hcommitment] at hsame
  cases hsame

section Open

variable (hp : s.proposals.find? id = some p) (hopen : p.isOverdue now = false)
include hp hopen

theorem openCommit_of_commitment {c : Commitment} (hcommitment : s.commitmentFor id = some c) :
    s.openCommit id agreement deadline tick now = .ok s (.already c) := by
  rw [openCommit, read_of_open hp hopen, ok_andThen, hcommitment]

theorem openCommit_of_closed (hcommitment : s.commitmentFor id = none) {f : Failure}
    (hclosed : ensureOpen p = .error f) :
    s.openCommit id agreement deadline tick now = .refuse s f := by
  rw [openCommit, read_of_open hp hopen, ok_andThen, hcommitment]
  simp only [hclosed]

theorem openCommit_of_committable (hcommitment : s.commitmentFor id = none)
    (hcommittable : ensureOpen p = .ok ()) :
    s.openCommit id agreement deadline tick now =
      if deadline.any (· ≤ tick) then .refuse s (.timeout (.missed "commit" .beforeStart))
      else .ok s (.opened ⟨id, p.type, agreement, deadline⟩) := by
  rw [openCommit, read_of_open hp hopen, ok_andThen, hcommitment]
  simp only [hcommittable]

end Open

/-! ## The second part -/

/-- The commitment that a commit makes. -/
def commitmentOn (p : Proposal) (agreement : Option AgreementRef) (fresh : Uuid) (now : Instant)
    (proof : Proof) : Commitment :=
  ⟨⟨fresh⟩, p.id, now, p.tallyHash, proof, agreement⟩

/-- A proposal is committed: its state, its commitment and one event, and that is all there is to
it. -/
structure Commits (s : Consensus) (p : Proposal) (c : Commitment) (o : Outcome Consensus Commitment) :
    Prop where
  result : o.result = .ok c
  proposals : o.state.proposals = s.proposals.insert p.id { p with state := .committed }
  commitments : o.state.commitments = s.commitments.insert c.id c
  commitmentOf : o.state.commitmentOf = s.commitmentOf.insert p.id c.id
  published : o.published = [committedEvent { p with state := .committed } c]

/-- A result that the next part only hands on. -/
theorem mapResult_andThen {α β : Type} (o : Outcome Consensus α) (f : α → β)
    {next : Consensus → β → Outcome Consensus α} (hnext : ∀ s a, next s (f a) = .ok s a) :
    (o.mapResult f).andThen next = o := by
  obtain ⟨state, published, result⟩ := o
  cases result with
  | error e => rfl
  | ok a =>
      have hall : (Outcome.mapResult f ⟨state, published, .ok a⟩).andThen next =
          ⟨(next state (f a)).state, published ++ (next state (f a)).published,
            (next state (f a)).result⟩ := rfl
      rw [hall, hnext, Outcome.ok, List.append_nil]

section Committable

variable (hp : s.proposals.find? id = some p) (hopen : p.isOverdue now = false)
  (hcommitment : s.commitmentFor id = none) (hcommittable : ensureOpen p = .ok ())
include hp hopen hcommitment hcommittable

theorem finalize_of_attested (hs : s.Keyed) {proof : Proof}
    (hproof : proofs.attest ⟨p.id.uuid.text, p.tallyHash⟩ = .ok proof) :
    Commits s p (commitmentOn p agreement fresh now proof)
      (s.finalize proofs id agreement fresh now) := by
  obtain ⟨hvoting, hquorum⟩ := ensureOpen_eq_ok_iff.mp hcommittable
  have hattest := attest_of_voting proofs hvoting (p.quorumReached_iff.mpr hquorum)
  rw [hproof] at hattest
  obtain rfl := hs id p hp
  have hfinal : s.finalize proofs p.id agreement fresh now =
      .ok (s.withCommitment { p with state := .committed }
          (commitmentOn p agreement fresh now proof))
        (commitmentOn p agreement fresh now proof)
        [committedEvent { p with state := .committed }
          (commitmentOn p agreement fresh now proof)] := by
    simp only [finalize, hcommitment, hp, hopen, hattest, Except.mapError, Except.map]
    rfl
  rw [hfinal]
  exact ⟨rfl, rfl, rfl, rfl, rfl⟩

theorem finalize_of_unattested {e : ProofError}
    (hproof : proofs.attest ⟨p.id.uuid.text, p.tallyHash⟩ = .error e) :
    s.finalize proofs id agreement fresh now = .refuse s (.ofProof e) := by
  obtain ⟨hvoting, hquorum⟩ := ensureOpen_eq_ok_iff.mp hcommittable
  have hattest := attest_of_voting proofs hvoting (p.quorumReached_iff.mpr hquorum)
  rw [hproof] at hattest
  simp only [finalize, hcommitment, hp, hopen, hattest, Except.mapError, Except.map]
  rfl

/-! ## The whole commit -/

/-- A commit that has begun in time is put to the authority if there is an agreement. -/
theorem commitUnder_of_begun (hbegun : ∀ d ∈ deadline, tick < d) :
    s.commitUnder policy proofs id agreement deadline tick fresh now =
      agreement.elim (s.finalize proofs id none fresh now) fun r =>
        if deadline.any (· < policy.ready (question p r)) then
          .refuse s (.timeout (.missed "commit" .whileRunning))
        else s.finishCommit proofs fresh now ⟨id, p.type, r, deadline⟩
          (policy.reply (question p r)) := by
  have hnow : ¬deadline.any (· ≤ tick) = true := by
    rw [Option.any_eq_true]
    rintro ⟨d, hd, hle⟩
    exact absurd (of_decide_eq_true hle) (Nat.not_le.mpr (hbegun d hd))
  rw [commitUnder, startCommit, openCommit_of_committable hp hopen hcommitment hcommittable,
    if_neg hnow, ok_andThen]
  cases agreement with
  | none => exact mapResult_andThen _ _ fun _ _ => rfl
  | some r => rfl

variable (proofs fresh) in
theorem commitUnder_of_late (h : ¬Prompt policy p agreement deadline tick) :
    (∃ stage, (s.commitUnder policy proofs id agreement deadline tick fresh now).result =
      .error (.timeout (.missed "commit" stage))) := by
  by_cases hbegun : ∀ d ∈ deadline, tick < d
  · rw [commitUnder_of_begun hp hopen hcommitment hcommittable hbegun]
    cases agreement with
    | none => exact absurd ⟨hbegun, nofun⟩ h
    | some r =>
        have hlate : deadline.any (· < policy.ready (question p r)) = true := by
          by_contra hnot
          refine h ⟨hbegun, ?_⟩
          rintro _ ⟨⟩ d hd
          simpa [Option.mem_def.mp hd] using hnot
        rw [Option.elim_some, if_pos hlate]
        exact ⟨_, rfl⟩
  · have hpast : deadline.any (· ≤ tick) = true := by
      push Not at hbegun
      obtain ⟨d, hd, hle⟩ := hbegun
      simpa [Option.mem_def.mp hd] using hle
    rw [commitUnder, startCommit, openCommit_of_committable hp hopen hcommitment hcommittable,
      if_pos hpast]
    exact ⟨_, rfl⟩

variable (proofs fresh) in
/-- A commit that is judged in time goes on to its second part exactly if it is found compliant. -/
theorem commitUnder_of_prompt (hprompt : Prompt policy p agreement deadline tick) :
    (Compliant policy p agreement ∧
      s.commitUnder policy proofs id agreement deadline tick fresh now =
        s.finalize proofs id agreement fresh now) ∨
    (¬Compliant policy p agreement ∧
      ∃ f, s.commitUnder policy proofs id agreement deadline tick fresh now = .refuse s f) := by
  rw [commitUnder_of_begun hp hopen hcommitment hcommittable hprompt.begun]
  cases agreement with
  | none => exact .inl ⟨nofun, rfl⟩
  | some r =>
      have hready : ¬deadline.any (· < policy.ready (question p r)) = true := by
        rw [Option.any_eq_true]
        rintro ⟨d, hd, hlt⟩
        exact absurd (of_decide_eq_true hlt) (Nat.not_lt.mpr (hprompt.judged r rfl d hd))
      rw [Option.elim_some, if_neg hready]
      simp only [Compliant, Option.mem_some_iff, forall_eq']
      cases hreply : policy.reply (question p r) with
      | error e => exact .inr ⟨nofun, _, rfl⟩
      | ok d =>
          simp only [finishCommit]
          cases hcompliant : d.compliant with
          | true => exact .inl ⟨⟨d, rfl, hcompliant⟩, rfl⟩
          | false =>
              refine .inr ⟨?_, _, rfl⟩
              rintro ⟨_, ⟨⟩, htrue⟩
              rw [hcompliant] at htrue
              cases htrue

end Committable

/-! ## Any commit -/

theorem commitUnder_of_none (hnone : s.proposals.find? id = none) :
    s.commitUnder policy proofs id agreement deadline tick fresh now = .refuse s (notFound id) := by
  rw [commitUnder, startCommit, openCommit_of_none hnone]
  rfl

theorem commitUnder_of_commitment (hp : s.proposals.find? id = some p)
    (hopen : p.isOverdue now = false) {c : Commitment} (hcommitment : s.commitmentFor id = some c) :
    s.commitUnder policy proofs id agreement deadline tick fresh now = .ok s c := by
  rw [commitUnder, startCommit, openCommit_of_commitment hp hopen hcommitment]
  rfl

/-- A commitment is found even if the proposal has to be expired first. -/
theorem commitUnder_already (hp : s.proposals.find? id = some p) {c : Commitment}
    (hcommitment : s.commitmentFor id = some c) :
    (s.commitUnder policy proofs id agreement deadline tick fresh now).result = .ok c := by
  cases hdue : p.isOverdue now with
  | false =>
      rw [commitUnder_of_commitment hp hdue hcommitment]
      rfl
  | true =>
      have hread : s.read id now = .ok (s.withProposal (p.expireIfDue now)) (p.expireIfDue now)
          [expiredEvent (p.expireIfDue now)] := by
        simp [read, hp, hdue]
      have hkept : (s.withProposal (p.expireIfDue now)).commitmentFor id = some c := hcommitment
      simp only [commitUnder, startCommit, openCommit, hread, Outcome.andThen, Outcome.ok, hkept]

theorem commitUnder_of_overdue (hs : s.Keyed) (hcommitment : s.commitmentFor id = none)
    (hp : s.proposals.find? id = some p) (hdue : p.isOverdue now = true) :
    (s.commitUnder policy proofs id agreement deadline tick fresh now).result =
      .error (.expired id.uuid.text) := by
  obtain ⟨q, hexpires⟩ := openCommit_of_overdue agreement deadline tick hs hcommitment
    (isDue_eq_true.mpr ⟨p, hp, hdue⟩)
  exact ((hexpires.andThen _).andThen _).result

theorem commitUnder_of_closed (hp : s.proposals.find? id = some p)
    (hopen : p.isOverdue now = false) (hcommitment : s.commitmentFor id = none) {f : Failure}
    (hclosed : ensureOpen p = .error f) :
    s.commitUnder policy proofs id agreement deadline tick fresh now = .refuse s f := by
  rw [commitUnder, startCommit, openCommit_of_closed hp hopen hcommitment hclosed]
  rfl

theorem commitUnder_of_passes (hs : s.Keyed) (hp : s.proposals.find? id = some p)
    (hcommitment : s.commitmentFor id = none)
    (h : Passes policy proofs p agreement deadline tick now) :
    ∃ proof, proofs.attest ⟨p.id.uuid.text, p.tallyHash⟩ = .ok proof ∧
      Commits s p (commitmentOn p agreement fresh now proof)
        (s.commitUnder policy proofs id agreement deadline tick fresh now) := by
  have hopen := isOverdue_of_inTime h.voting h.inTime
  have hcommittable := ensureOpen_eq_ok_iff.mpr ⟨h.voting, h.approved, h.attended⟩
  obtain ⟨proof, hproof⟩ := h.attested
  rcases commitUnder_of_prompt proofs fresh hp hopen hcommitment
    hcommittable h.prompt with ⟨-, hfinal⟩ | ⟨hnot, -⟩
  · rw [hfinal]
    exact ⟨proof, hproof, finalize_of_attested hp hopen hcommitment hcommittable hs hproof⟩
  · exact absurd h.compliant hnot

/-- A commit that ends well has found all that it takes, unless there was a commitment. -/
theorem passes_of_ok (hs : s.Keyed) (hp : s.proposals.find? id = some p)
    (hcommitment : s.commitmentFor id = none) {c : Commitment}
    (hok : (s.commitUnder policy proofs id agreement deadline tick fresh now).result = .ok c) :
    Passes policy proofs p agreement deadline tick now := by
  cases hdue : p.isOverdue now with
  | true =>
      rw [commitUnder_of_overdue hs hcommitment hp hdue] at hok
      cases hok
  | false =>
      cases hcommittable : ensureOpen p with
      | error f =>
          rw [commitUnder_of_closed hp hdue hcommitment hcommittable] at hok
          cases hok
      | ok u =>
          obtain ⟨hvoting, happroved, hattended⟩ := ensureOpen_eq_ok_iff.mp hcommittable
          have hprompt : Prompt policy p agreement deadline tick := by
            by_contra hlate
            obtain ⟨stage, hmissed⟩ := commitUnder_of_late proofs fresh hp
              hdue hcommitment hcommittable hlate
            rw [hmissed] at hok
            cases hok
          have hintime : now < p.timeoutAt := by
            rw [Bool.eq_false_iff, Ne, isOverdue_of_voting hvoting] at hdue
            exact Int.not_le.mp hdue
          rcases commitUnder_of_prompt proofs fresh hp hdue hcommitment
            hcommittable hprompt with ⟨hcompliant, hfinal⟩ | ⟨-, f, hrefused⟩
          · refine ⟨hvoting, hintime, happroved, hattended, hprompt, hcompliant, ?_⟩
            cases hproof : proofs.attest ⟨p.id.uuid.text, p.tallyHash⟩ with
            | ok proof => exact ⟨proof, rfl⟩
            | error e =>
                rw [hfinal, finalize_of_unattested hp hdue hcommitment hcommittable hproof] at hok
                cases hok
          · rw [hrefused] at hok
            cases hok

/-! ## The tables -/

/-- What the tables hold of commitments leads to one, for a stored proposal, and no proposal is
committed without. This is so even if ids are drawn twice. -/
structure Indexed (s : Consensus) : Prop where
  known : ∀ id k, s.commitmentOf.find? id = some k → (s.proposals.find? id).isSome = true
  mapped : ∀ id k, s.commitmentOf.find? id = some k → ∃ c, s.commitments.find? k = some c
  committed : ∀ id p, s.proposals.find? id = some p → p.state = .committed →
    ∃ k, s.commitmentOf.find? id = some k

namespace Indexed

theorem empty : Indexed {} := by
  refine ⟨?_, ?_, ?_⟩ <;> intro _ _ h <;> cases h

theorem move {t : Consensus} {a : Action} {es : List Event} (hs : Indexed s)
    (h : Move a s t es) : Indexed t := by
  rcases h.commitments_cases with ⟨htable, hmap, hcommitted⟩ | ⟨p, c, -, -, -, -, rfl⟩
  · refine ⟨?_, ?_, ?_⟩ <;> rw [hmap]
    · exact fun id k hk => h.isSome_find? (hs.known id k hk)
    · rw [htable]
      exact hs.mapped
    · exact fun id q hq hstate => hs.committed id q (hcommitted id q hq hstate) hstate
  · refine ⟨?_, ?_, ?_⟩ <;> simp only [Consensus.withCommitment, Table.find?_insert]
    · intro id k hk
      split
      · rfl
      next hid =>
        rw [if_neg hid] at hk
        exact hs.known id k hk
    · intro id k hk
      by_cases hkey : k = c.id
      · exact ⟨c, if_pos hkey⟩
      · rw [if_neg hkey]
        split at hk
        · exact absurd (Option.some.inj hk).symm hkey
        · exact hs.mapped id k hk
    · intro id q hq hstate
      split at hq
      next hid => exact ⟨c.id, if_pos hid⟩
      next hid =>
        rw [if_neg hid]
        exact hs.committed id q hq hstate

theorem exists_proposal (hs : Indexed s) {c : Commitment} (hc : s.commitmentFor id = some c) :
    ∃ p, s.proposals.find? id = some p := by
  obtain ⟨k, hk, -⟩ := Option.bind_eq_some_iff.mp hc
  exact Option.isSome_iff_exists.mp (hs.known id k hk)

theorem commitmentOf_eq_none (hs : Indexed s) (hnone : s.commitmentFor id = none) :
    s.commitmentOf.find? id = none := by
  cases hk : s.commitmentOf.find? id with
  | none => rfl
  | some k =>
      obtain ⟨c, hc⟩ := hs.mapped id k hk
      rw [commitmentFor, hk, Option.bind_some, hc] at hnone
      cases hnone

end Indexed

theorem Run.after_indexed (settings : Config.ConsensusSettings) (actions : List Action) :
    Indexed (Run.after settings actions).engine := by
  induction actions using List.reverseRecOn with
  | nil => exact .empty
  | append_singleton actions a ih =>
      obtain ⟨es, hmove, -⟩ := Run.after_move settings actions a
      exact ih.move hmove

/-! ## Runs -/

/-- What a commit comes to, by what there is under the id. -/
structure Verdict (s : Consensus) (policy : Authority) (proofs : ProofSystem) (id : ProposalId)
    (agreement : Option AgreementRef) (deadline : Option Nat) (tick : Nat) (fresh : Uuid)
    (now : Instant) (o : Outcome Consensus Commitment) : Prop where
  ok_iff : (∃ c, o.result = .ok c) ↔
    (∃ c, s.commitmentFor id = some c) ∨
      ∃ p, s.proposals.find? id = some p ∧ Passes policy proofs p agreement deadline tick now
  /-- A commitment that is there is returned. -/
  again : ∀ c, s.commitmentFor id = some c →
    o.result = .ok c ∧ (s.isDue id now = false → o = .ok s c)
  /-- Otherwise there is a new one, under the agreement that was given. -/
  commits : s.commitmentFor id = none → ∀ p, s.proposals.find? id = some p →
    Passes policy proofs p agreement deadline tick now →
      s.commitments.find? ⟨fresh⟩ = none ∧ s.commitmentOf.find? id = none ∧
        ∃ proof, proofs.attest ⟨p.id.uuid.text, p.tallyHash⟩ = .ok proof ∧
          Commits s p (commitmentOn p agreement fresh now proof) o
  unknown : s.proposals.find? id = none → o.result = .error (notFound id)
  expired : s.commitmentFor id = none → ∀ p, s.proposals.find? id = some p →
    p.state = .expired ∨ p.state.isTerminal = false ∧ p.timeoutAt ≤ now →
      o.result = .error (.expired id.uuid.text)
  rejected : s.commitmentFor id = none → ∀ p, s.proposals.find? id = some p →
    p.state = .rejected → o.result = .error (.invalidState (.notCommittable id .rejected))
  short : s.commitmentFor id = none → ∀ p, s.proposals.find? id = some p →
    p.state = .voting → now < p.timeoutAt →
    p.exactWeight .approve < p.required.toNat ∨ p.exactParticipation < p.floor.toNat →
      o.result = .error (.quorumNotReached p.tally.approve p.required)

theorem commitUnder_ok_iff (hs : s.Keyed) (hindexed : Indexed s) :
    (∃ c, (s.commitUnder policy proofs id agreement deadline tick fresh now).result = .ok c) ↔
      (∃ c, s.commitmentFor id = some c) ∨
        ∃ p, s.proposals.find? id = some p ∧
          Passes policy proofs p agreement deadline tick now := by
  cases hcommitment : s.commitmentFor id with
  | some c =>
      obtain ⟨p, hp⟩ := hindexed.exists_proposal hcommitment
      exact iff_of_true ⟨c, commitUnder_already hp hcommitment⟩ (.inl ⟨c, rfl⟩)
  | none =>
      constructor
      · rintro ⟨c, hok⟩
        cases hp : s.proposals.find? id with
        | none =>
            rw [commitUnder_of_none hp] at hok
            cases hok
        | some p => exact .inr ⟨p, rfl, passes_of_ok hs hp hcommitment hok⟩
      · rintro (⟨c, hc⟩ | ⟨p, hp, hpasses⟩)
        · cases hc
        · obtain ⟨proof, -, hcommits⟩ := commitUnder_of_passes hs hp hcommitment hpasses
          exact ⟨_, hcommits.result⟩

/-- An engine decides on a commit by what is stored. -/
theorem verdict (hs : s.Keyed) (hindexed : Indexed s)
    (hfresh : s.commitments.find? ⟨fresh⟩ = none) :
    Verdict s policy proofs id agreement deadline tick fresh now
      (s.commitUnder policy proofs id agreement deadline tick fresh now) where
  ok_iff := commitUnder_ok_iff hs hindexed
  again c hc := by
    obtain ⟨p, hp⟩ := hindexed.exists_proposal hc
    refine ⟨commitUnder_already hp hc, fun hdue => ?_⟩
    exact commitUnder_of_commitment hp (isOverdue_eq_false hdue hp) hc
  commits hnone _ hp hpasses :=
    ⟨hfresh, hindexed.commitmentOf_eq_none hnone, commitUnder_of_passes hs hp hnone hpasses⟩
  unknown hunknown := by
    rw [commitUnder_of_none hunknown]
    rfl
  expired hnone p hp hexpired := by
    obtain rfl := hs id p hp
    rcases hexpired with hexpired | ⟨hopen, hpast⟩
    · have hterminal : p.isOverdue now = false := isOverdue_of_isTerminal (by rw [hexpired]; rfl)
      rw [commitUnder_of_closed hp hterminal hnone (ensureOpen_of_expired hexpired)]
      rfl
    · have hdue : p.isOverdue now = true := by
        simpa [Proposal.isOverdue, Proposal.isPastTimeout, hopen] using hpast
      exact commitUnder_of_overdue hs hnone hp hdue
  rejected hnone p hp hrejected := by
    obtain rfl := hs id p hp
    have hterminal : p.isOverdue now = false := isOverdue_of_isTerminal (by rw [hrejected]; rfl)
    rw [commitUnder_of_closed hp hterminal hnone (ensureOpen_of_rejected hrejected)]
    rfl
  short hnone p hp hvoting hintime hshort := by
    rw [commitUnder_of_closed hp (isOverdue_of_inTime hvoting hintime) hnone
      (ensureOpen_of_short hvoting hshort)]
    rfl

/-- In every state of a run a commit that nothing interrupts succeeds exactly if the proposal has a
commitment or has all that it takes to be given one; otherwise the failure tells what is wrong with
the proposal. The commit itself draws an id that has not been drawn before. -/
theorem commit_verdict (settings : Config.ConsensusSettings) {actions : List Action} {fresh : Uuid}
    (hfresh : ⟨fresh⟩ ∉ actions.filterMap Action.commitmentId?)
    (policy : Authority) (proofs : ProofSystem) (id : ProposalId)
    (agreement : Option AgreementRef) (deadline : Option Nat) (tick : Nat) (now : Instant) :
    let s := (Run.after settings actions).engine
    Verdict s policy proofs id agreement deadline tick fresh now
      (s.commitUnder policy proofs id agreement deadline tick fresh now) := by
  refine verdict (Run.after_keyed settings actions) (Run.after_indexed settings actions) ?_
  cases hc : (Run.after settings actions).engine.commitments.find? ⟨fresh⟩ with
  | none => rfl
  | some c => exact absurd (Run.mem_commitmentIds settings actions hc) hfresh

/-- Two approve and one abstains, and a commit of the proposal is under way. -/
def threeVoters : List Action :=
  [.propose ⟨⟨⟨7⟩⟩, "deploy", 2, none, some 4⟩ ⟨1⟩ ⟨0⟩,
   .vote ⟨⟨1⟩⟩ ⟨⟨"v1"⟩, .approve, 1, "s"⟩ ⟨5⟩, .vote ⟨⟨1⟩⟩ ⟨⟨"v2"⟩, .approve, 1, "s"⟩ ⟨6⟩,
   .vote ⟨⟨1⟩⟩ ⟨⟨"v3"⟩, .abstain, 2, "s"⟩ ⟨7⟩, .openCommit ⟨⟨1⟩⟩ none none 0 ⟨8⟩]

/-- The judgement is there at the very tick of the deadline. -/
theorem commit_verdict_threeVoters :
    ⟨⟨2⟩⟩ ∉ threeVoters.filterMap Action.commitmentId? ∧
      ∃ c, ((Run.after {} threeVoters).engine.commitUnder ⟨Lifecycle.obliging, fun _ => 9⟩
        ⟨"open", fun _ => .ok ⟨"open", "", none⟩, fun _ _ => true⟩ ⟨⟨1⟩⟩ (some ⟨"agreement"⟩)
        (some 9) 0 ⟨2⟩ ⟨10⟩).result = .ok c := by
  have hfresh : ⟨⟨2⟩⟩ ∉ threeVoters.filterMap Action.commitmentId? := by decide
  have hverdict := commit_verdict {} hfresh ⟨Lifecycle.obliging, fun _ => 9⟩
    ⟨"open", fun _ => .ok ⟨"open", "", none⟩, fun _ _ => true⟩ ⟨⟨1⟩⟩ (some ⟨"agreement"⟩)
    (some 9) 0 ⟨10⟩
  refine ⟨hfresh, hverdict.ok_iff.mpr (.inr ⟨_, rfl, ?_⟩)⟩
  refine ⟨rfl, by decide, by decide, by decide, ⟨?_, ?_⟩, ?_, ⟨_, rfl⟩⟩
  · rintro _ ⟨⟩
    decide
  · rintro _ ⟨⟩ _ ⟨⟩
    exact Nat.le_refl _
  · rintro _ ⟨⟩
    exact ⟨_, rfl, rfl⟩

end AgentGovernance.Consensus

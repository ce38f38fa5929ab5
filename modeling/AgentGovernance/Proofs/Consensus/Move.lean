import AgentGovernance.Proofs.Basic
import AgentGovernance.Proofs.Consensus.Run
import AgentGovernance.Proofs.Consensus.Tally
import Mathlib.Data.List.Induction

/-!
# What one operation does

Every operation of the consensus engine leaves the tables alone, adds a proposal, revises one,
expires the overdue ones or commits one. A `Move` says which, under what conditions, and what is
published; everything about runs follows from the moves and not from the operations.
-/
namespace AgentGovernance.Consensus

/-- What a vote or the time does to a proposal, with the events about it. -/
inductive Revision (p : Proposal) : Proposal → List Event → Prop
  | expire {now : Instant} : p.isOverdue now = true →
      Revision p { p with state := .expired } [expiredEvent { p with state := .expired }]
  | vote {v : Vote} : p.state = .voting → v.proposal = p.id → p.isPastTimeout v.castAt = false →
      (p.withVote v).isVotedDown = false →
      Revision p (p.withVote v) [votedEvent v (p.withVote v).tally]
  | reject {v : Vote} : p.state = .voting → v.proposal = p.id → p.isPastTimeout v.castAt = false →
      (p.withVote v).isVotedDown = true →
      Revision p { p.withVote v with state := .rejected }
        [votedEvent v (p.withVote v).tally, rejectedEvent { p.withVote v with state := .rejected }]

/-- A commitment that a proposal can be given. -/
structure Supports (p : Proposal) (c : Commitment) : Prop where
  voting : p.state = .voting
  quorum : p.tally.quorumReached = true
  names : c.proposal = p.id
  hash : c.tallyHash = p.tallyHash
  inTime : p.isPastTimeout c.timestamp = false

/-- What an action does to the tables. A new proposal or commitment has the id that the action
draws. -/
inductive Move (a : Action) (s : Consensus) : Consensus → List Event → Prop
  | stay : Move a s s []
  | propose {p : Proposal} : a.proposalId? = some p.id → p.state = .voting → p.votes = ∅ →
      Move a s (s.withProposal p) [proposedEvent p]
  | revise {p q : Proposal} {es : List Event} : s.proposals.find? p.id = some p →
      Revision p q es → Move a s (s.withProposal q) es
  | sweep (now : Instant) : Move a s (s.expireOverdue now).state (s.expireOverdue now).published
  | commit {p : Proposal} {c : Commitment} : a.commitmentId? = some c.id →
      s.proposals.find? p.id = some p → s.commitmentFor p.id = none → Supports p c →
      Move a s (s.withCommitment { p with state := .committed } c)
        [committedEvent { p with state := .committed } c]

/-- Every proposal is kept under its own id. -/
def Keyed (s : Consensus) : Prop := ∀ id p, s.proposals.find? id = some p → p.id = id

/-! ## Proposals -/

/-- A vote is recorded on an open proposal in time, and may reject it. -/
theorem recordVote_eq_ok {p q : Proposal} {v : Vote} {now : Instant} {t : Tally}
    (h : p.recordVote v now = .ok (q, t)) :
    p.state = .voting ∧ v.proposal = p.id ∧ p.isPastTimeout now = false ∧
      t = (p.withVote v).tally ∧
      q = if (p.withVote v).isVotedDown then { p.withVote v with state := .rejected }
        else p.withVote v := by
  simp only [Proposal.recordVote] at h
  split at h
  · cases h
  next hopen =>
    split at h
    · cases h
    next hvoting =>
      split at h
      · cases h
      next hid =>
        cases h
        exact ⟨not_not.mp hvoting, not_not.mp hid, by simp_all, rfl, rfl⟩

theorem recordVote_cases {p q : Proposal} {v : Vote} {t : Tally}
    (h : p.recordVote v v.castAt = .ok (q, t)) :
    t = (p.withVote v).tally ∧
      Revision p q (votedEvent v t :: if q.state = .rejected then [rejectedEvent q] else []) := by
  obtain ⟨hvoting, hid, hopen, rfl, rfl⟩ := recordVote_eq_ok h
  refine ⟨rfl, ?_⟩
  cases hdown : (p.withVote v).isVotedDown with
  | false =>
      have hstate : (p.withVote v).state ≠ .rejected := by simp [Proposal.withVote, hvoting]
      simp only [Bool.false_eq_true, if_false, if_neg hstate]
      exact .vote hvoting hid hopen hdown
  | true =>
      simp only [if_true]
      exact .reject hvoting hid hopen hdown

/-! ## Operations -/

variable {a : Action} {s : Consensus}

theorem propose_move {settings : Config.ConsensusSettings} {m : Motion} {fresh : Uuid}
    {now : Instant} (ha : a.proposalId? = some ⟨fresh⟩) :
    Move a s (s.propose settings m fresh now).state (s.propose settings m fresh now).published := by
  unfold propose
  split
  · exact .stay
  · exact .propose ha rfl rfl

theorem expire_move {α : Type} {p : Proposal} {now : Instant}
    (hp : s.proposals.find? p.id = some p) (h : p.isOverdue now = true) :
    Move a s (s.expire p (α := α)).state (s.expire p (α := α)).published :=
  .revise hp (.expire h)

/-- The vote that a ballot becomes. -/
def Ballot.cast (b : Ballot) (id : ProposalId) (now : Instant) : Vote :=
  ⟨b.voter, id, b.decision, b.weight, b.signature, now⟩

/-- A vote is refused, or finds its proposal overdue, or is recorded. -/
theorem vote_cases (hs : s.Keyed) (id : ProposalId) (b : Ballot) (now : Instant) :
    (∃ f, s.vote id b now = .refuse s f) ∨
      (∃ p, s.proposals.find? p.id = some p ∧ p.isOverdue now = true ∧
        s.vote id b now = s.expire p) ∨
      ∃ p q t, p.id = id ∧ s.proposals.find? p.id = some p ∧
        p.recordVote (b.cast id now) now = .ok (q, t) ∧
        s.vote id b now = .ok (s.withProposal q) t (votedEvent (b.cast id now) t ::
          (if q.state = .rejected then [rejectedEvent q] else [])) := by
  unfold vote
  split
  · exact .inl ⟨_, rfl⟩
  next p hp =>
    obtain rfl := hs id p hp
    split
    next hdue => exact .inr (.inl ⟨p, hp, hdue, rfl⟩)
    next =>
      dsimp only
      split
      · exact .inl ⟨_, rfl⟩
      next q t hrecord => exact .inr (.inr ⟨p, q, t, rfl, hp, hrecord, rfl⟩)

theorem vote_move (hs : s.Keyed) (id : ProposalId) (b : Ballot) (now : Instant) :
    Move a s (s.vote id b now).state (s.vote id b now).published := by
  rcases vote_cases hs id b now with ⟨f, h⟩ | ⟨p, hp, hdue, h⟩ | ⟨p, q, t, rfl, hp, hrecord, h⟩
  · rw [h]
    exact .stay
  · rw [h]
    exact expire_move hp hdue
  · rw [h]
    exact .revise hp (recordVote_cases hrecord).2

theorem read_move (hs : s.Keyed) (id : ProposalId) (now : Instant) :
    Move a s (s.read id now).state (s.read id now).published := by
  unfold read
  split
  · exact .stay
  next p hp =>
    obtain rfl := hs id p hp
    split
    next hdue =>
      have h : p.expireIfDue now = { p with state := .expired } := by
        simp [Proposal.expireIfDue, hdue]
      simp only [h]
      exact expire_move (α := Proposal) hp hdue
    next => exact .stay

theorem tally_move (hs : s.Keyed) (id : ProposalId) (now : Instant) :
    Move a s (s.tally id now).state (s.tally id now).published := read_move hs id now

/-- The first part of a commit changes what reading the proposal changes. -/
theorem openCommit_eq_read (id : ProposalId) (agreement : Option AgreementRef)
    (deadline : Option Nat) (tick : Nat) (now : Instant) :
    (s.openCommit id agreement deadline tick now).state = (s.read id now).state ∧
      (s.openCommit id agreement deadline tick now).published = (s.read id now).published := by
  unfold openCommit Outcome.andThen
  split
  · exact ⟨rfl, rfl⟩
  · simp only
    split
    · simp [Outcome.ok]
    · split
      · simp [Outcome.refuse]
      · split <;> simp [Outcome.refuse, Outcome.ok]

theorem openCommit_move (hs : s.Keyed) (id : ProposalId) (agreement : Option AgreementRef)
    (deadline : Option Nat) (tick : Nat) (now : Instant) :
    Move a s (s.openCommit id agreement deadline tick now).state
      (s.openCommit id agreement deadline tick now).published := by
  have h := openCommit_eq_read (s := s) id agreement deadline tick now
  rw [h.1, h.2]
  exact read_move hs id now

/-! ## The second part of a commit -/

/-- The proof of a commitment is what is attested for its hash. -/
def AttestedBy (proofs : ProofSystem) (c : Commitment) : Prop :=
  proofs.attest ⟨c.proposal.uuid.text, c.tallyHash⟩ = .ok c.proof

/-- How the second part of a commit can end, when a commitment that it makes gets this id. -/
inductive Completion (s : Consensus) (proofs : ProofSystem) (id : ProposalId) (k : CommitmentId)
    (now : Instant) : Outcome Consensus Commitment → Prop
  | already {c : Commitment} : s.commitmentFor id = some c → Completion s proofs id k now (.ok s c)
  | refuse (f : Failure) : Completion s proofs id k now (.refuse s f)
  | expire {p : Proposal} : s.proposals.find? id = some p → p.isOverdue now = true →
      Completion s proofs id k now (s.expire p)
  | commit {p : Proposal} {c : Commitment} : s.proposals.find? id = some p →
      s.commitmentFor id = none → Supports p c → AttestedBy proofs c → c.id = k →
      Completion s proofs id k now (.ok (s.withCommitment { p with state := .committed } c) c
        [committedEvent { p with state := .committed } c])

/-- An attested proposal was open, had its quorum and is committed. -/
theorem attest_ok {proofs : ProofSystem} {p q : Proposal} {hash : ContentHash} {proof : Proof}
    (h : attest proofs p = .ok (q, hash, proof)) :
    p.state = .voting ∧ p.tally.quorumReached = true ∧ hash = p.tallyHash ∧
      q = { p with state := .committed } ∧
      proofs.attest ⟨p.id.uuid.text, p.tallyHash⟩ = .ok proof := by
  by_cases hvoting : p.state = .voting
  · by_cases hquorum : p.tally.quorumReached = true
    · have hopen : p.ensureCommittable = .ok () := by
        simp [Proposal.ensureCommittable, hvoting, hquorum]
      have hmarked : p.markCommitted = .ok { p with state := .committed } := by
        simp [Proposal.markCommitted, Proposal.move, hvoting]
      simp only [attest, hopen] at h
      cases hproof : proofs.attest ⟨p.id.uuid.text, p.tallyHash⟩ with
      | error e => simp [hproof, bind, Except.bind, throw, throwThe, MonadExceptOf.throw] at h
      | ok w =>
          simp only [hproof, hmarked, bind, Except.bind, pure, Except.pure] at h
          cases h
          exact ⟨hvoting, hquorum, rfl, rfl, rfl⟩
    · have hshort : p.ensureCommittable =
          .error (.quorumNotReached p.tally.approve p.required) := by
        simp [Proposal.ensureCommittable, hvoting, hquorum]
      simp [attest, hshort, bind, Except.bind] at h
  · have hclosed : p.ensureCommittable =
        .error (.invalidState (.notCommittable p.id p.state)) := by
      simp [Proposal.ensureCommittable, hvoting]
    simp [attest, hclosed, bind, Except.bind] at h

theorem finalize_completion (hs : s.Keyed) (proofs : ProofSystem) (id : ProposalId)
    (agreement : Option AgreementRef) (fresh : Uuid) (now : Instant) :
    Completion s proofs id ⟨fresh⟩ now (s.finalize proofs id agreement fresh now) := by
  unfold finalize
  split
  next c hc => exact .already hc
  next => exact .refuse _
  next p hnone hp =>
    obtain rfl := hs id p hp
    split
    next hdue => exact .expire hp hdue
    next hdue =>
      split
      next => exact .refuse _
      next q hash proof hq =>
        obtain ⟨hvoting, hquorum, rfl, rfl, hproof⟩ := attest_ok hq
        have htime : p.isPastTimeout now = false := by
          simpa [Proposal.isOverdue, hvoting, ProposalState.isTerminal] using hdue
        exact .commit hp hnone ⟨hvoting, hquorum, rfl, rfl, htime⟩ hproof rfl

theorem finishCommit_completion (hs : s.Keyed) (proofs : ProofSystem) (fresh : Uuid) (now : Instant)
    (call : PendingCommit) (reply : call.request.Reply) :
    Completion s proofs call.proposal ⟨fresh⟩ now (s.finishCommit proofs fresh now call reply) := by
  cases reply with
  | error e => exact .refuse _
  | ok d =>
      simp only [finishCommit]
      split
      · exact finalize_completion hs proofs call.proposal (some call.agreement) fresh now
      · exact .refuse _

theorem closeCommit_completion (hs : s.Keyed) (proofs : ProofSystem) (fresh : Uuid) (now : Instant)
    (call : OpenCommit) (judgement : Except PolicyError Decision) :
    Completion s proofs call.proposal ⟨fresh⟩ now
      (s.closeCommit proofs fresh now call judgement) := by
  unfold closeCommit
  split
  next a _ => exact finishCommit_completion hs proofs fresh now ⟨_, _, a, _⟩ judgement
  next => exact finalize_completion hs proofs call.proposal none fresh now

theorem Completion.move {proofs : ProofSystem} {id : ProposalId} {k : CommitmentId} {now : Instant}
    {o : Outcome Consensus Commitment} (h : Completion s proofs id k now o) (hs : s.Keyed)
    (ha : a.commitmentId? = some k) : Move a s o.state o.published := by
  cases h with
  | already | refuse => exact .stay
  | @expire p hp hdue =>
      obtain rfl := hs id p hp
      exact expire_move hp hdue
  | @commit p c hp hnone hsupports _ hk =>
      obtain rfl := hs id p hp
      obtain rfl := hk
      exact .commit ha hp hnone hsupports

/-! ## Runs -/

theorem Run.step_move (settings : Config.ConsensusSettings) (r : Run) (a : Action)
    (hs : r.engine.Keyed) :
    ∃ es, Move a r.engine (r.step settings a).engine es ∧
      (r.step settings a).published = r.published ++ es := by
  cases a with
  | propose m fresh now => exact ⟨_, propose_move rfl, rfl⟩
  | vote id b now => exact ⟨_, vote_move hs id b now, rfl⟩
  | get id now => exact ⟨_, read_move hs id now, rfl⟩
  | tally id now => exact ⟨_, tally_move hs id now, rfl⟩
  | expireOverdue now => exact ⟨_, .sweep now, rfl⟩
  | openCommit id agreement deadline tick now =>
      refine ⟨(r.engine.openCommit id agreement deadline tick now).published, ?_, ?_⟩
      · simpa only [step, opened_engine] using openCommit_move hs id agreement deadline tick now
      · simp only [step, opened_published]
  | closeCommit place judgement proofs fresh now =>
      simp only [step]
      split
      · exact ⟨[], .stay, by simp⟩
      next call _ =>
        exact ⟨_, (closeCommit_completion hs proofs fresh now call judgement).move hs rfl, rfl⟩
  | abandonCommit place =>
      simp only [step]
      split <;> exact ⟨[], .stay, by simp [withoutPending, answer]⟩

/-! ## The tables after a move -/

/-- What a move makes of a stored proposal. -/
inductive Successor (p : Proposal) : Proposal → Prop
  | same : Successor p p
  | revised {q : Proposal} {es : List Event} : Revision p q es → Successor p q
  | committed {c : Commitment} : Supports p c → Successor p { p with state := .committed }

theorem Successor.id_eq {p q : Proposal} (h : Successor p q) : q.id = p.id := by
  cases h with
  | same => rfl
  | revised hr => cases hr <;> rfl
  | committed _ => rfl

/-- Nothing happens to a proposal in a terminal state. -/
theorem Successor.eq_of_isTerminal {p q : Proposal} (h : Successor p q)
    (hp : p.state.isTerminal = true) : q = p := by
  cases h with
  | same => rfl
  | revised hr =>
      cases hr with
      | expire hdue => simp [Proposal.isOverdue, hp] at hdue
      | vote hvoting => simp [hvoting, ProposalState.isTerminal] at hp
      | reject hvoting => simp [hvoting, ProposalState.isTerminal] at hp
  | committed hc => simp [hc.voting, ProposalState.isTerminal] at hp

theorem successor_expireIfDue (p : Proposal) (now : Instant) :
    Successor p (p.expireIfDue now) := by
  cases hdue : p.isOverdue now with
  | false =>
      simp only [Proposal.expireIfDue, hdue]
      exact .same
  | true =>
      simp only [Proposal.expireIfDue, hdue]
      exact .revised (.expire hdue)

namespace Move

variable {t : Consensus} {es : List Event}

/-- Every stored proposal stays stored, and a new one has the id the action draws. -/
theorem find?_cases (h : Move a s t es) {id : ProposalId} {q : Proposal}
    (hq : t.proposals.find? id = some q) :
    (∃ p, s.proposals.find? id = some p ∧ Successor p q) ∨
      a.proposalId? = some id ∧ q.id = id ∧ q.state = .voting ∧ q.votes = ∅ := by
  cases h with
  | stay => exact .inl ⟨q, hq, .same⟩
  | @propose p ha hvoting hvotes =>
      simp only [withProposal, Table.find?_insert] at hq
      split at hq
      next hid =>
        obtain rfl := Option.some.inj hq
        exact .inr ⟨hid ▸ ha, hid.symm, hvoting, hvotes⟩
      next => exact .inl ⟨q, hq, .same⟩
  | @revise p r es hp hr =>
      have hid : r.id = p.id := (Successor.revised hr).id_eq
      simp only [withProposal, Table.find?_insert, hid] at hq
      split at hq
      next h =>
        obtain rfl := Option.some.inj hq
        exact .inl ⟨p, h ▸ hp, .revised hr⟩
      next => exact .inl ⟨q, hq, .same⟩
  | sweep now =>
      simp only [expireOverdue, Outcome.ok, Table.find?_map, Option.map_eq_some_iff] at hq
      obtain ⟨p, hp, rfl⟩ := hq
      exact .inl ⟨p, hp, successor_expireIfDue p now⟩
  | @commit p c _ hp _ hc =>
      simp only [withCommitment, Table.find?_insert] at hq
      split at hq
      next h =>
        obtain rfl := Option.some.inj hq
        exact .inl ⟨p, h ▸ hp, .committed hc⟩
      next => exact .inl ⟨q, hq, .same⟩

theorem isSome_find? (h : Move a s t es) {id : ProposalId}
    (hid : (s.proposals.find? id).isSome = true) : (t.proposals.find? id).isSome = true := by
  cases h with
  | stay => exact hid
  | propose | revise | commit =>
      simp only [withProposal, withCommitment, Table.find?_insert]
      split
      · rfl
      · exact hid
  | sweep now => simpa only [expireOverdue, Outcome.ok, Table.find?_map, Option.isSome_map]

/-- What becomes of a stored proposal whose id is not drawn again. -/
theorem find?_of_some (h : Move a s t es) {id : ProposalId} {p : Proposal}
    (hp : s.proposals.find? id = some p) (ha : a.proposalId? ≠ some id) :
    ∃ q, t.proposals.find? id = some q ∧ Successor p q := by
  have hstored := h.isSome_find? (by rw [hp]; rfl : (s.proposals.find? id).isSome = true)
  obtain ⟨q, hq⟩ := Option.isSome_iff_exists.mp hstored
  rcases h.find?_cases hq with ⟨p', hp', hpq⟩ | ⟨hnew, _⟩
  · rw [hp] at hp'
    obtain rfl := Option.some.inj hp'
    exact ⟨q, hq, hpq⟩
  · exact absurd hnew ha

theorem keyed (h : Move a s t es) (hs : s.Keyed) : t.Keyed := by
  intro id q hq
  rcases h.find?_cases hq with ⟨p, hp, hpq⟩ | ⟨_, hid, _⟩
  · rw [hpq.id_eq, hs id p hp]
  · exact hid

/-- Only a commit touches the commitments, and only a commit commits a proposal. -/
theorem commitments_cases (h : Move a s t es) :
    (t.commitments = s.commitments ∧ t.commitmentOf = s.commitmentOf ∧
      ∀ id q, t.proposals.find? id = some q → q.state = .committed →
        s.proposals.find? id = some q) ∨
    ∃ p c, a.commitmentId? = some c.id ∧ s.proposals.find? p.id = some p ∧
      s.commitmentFor p.id = none ∧ Supports p c ∧
      t = s.withCommitment { p with state := .committed } c := by
  cases h with
  | stay => exact .inl ⟨rfl, rfl, fun _ _ hq _ => hq⟩
  | @propose p _ hvoting _ =>
      refine .inl ⟨rfl, rfl, fun id q hq hstate => ?_⟩
      simp only [withProposal, Table.find?_insert] at hq
      split at hq
      · obtain rfl := Option.some.inj hq
        rw [hvoting] at hstate
        cases hstate
      · exact hq
  | @revise p r es hp hr =>
      refine .inl ⟨rfl, rfl, fun id q hq hstate => ?_⟩
      simp only [withProposal, Table.find?_insert] at hq
      split at hq
      · obtain rfl := Option.some.inj hq
        cases hr with
        | expire => cases hstate
        | vote hvoting =>
            rw [Proposal.withVote, hvoting] at hstate
            cases hstate
        | reject => cases hstate
      · exact hq
  | sweep now =>
      refine .inl ⟨rfl, rfl, fun id q hq hstate => ?_⟩
      simp only [expireOverdue, Outcome.ok, Table.find?_map, Option.map_eq_some_iff] at hq
      obtain ⟨p, hp, rfl⟩ := hq
      unfold Proposal.expireIfDue at hstate ⊢
      split at hstate
      · cases hstate
      next hdue => simpa only [if_neg hdue] using hp
  | @commit p c ha hp hnone hc => exact .inr ⟨p, c, ha, hp, hnone, hc, rfl⟩

end Move

/-! ## Ids over a run -/

theorem keyed_empty : Keyed {} := fun _ _ h => by cases h

namespace Run

variable (settings : Config.ConsensusSettings)

theorem after_keyed (actions : List Action) : (after settings actions).engine.Keyed := by
  induction actions using List.reverseRecOn with
  | nil => exact keyed_empty
  | append_singleton actions a ih =>
      rw [after_concat]
      obtain ⟨es, hmove, _⟩ := step_move settings _ a ih
      exact hmove.keyed ih

/-- Every action of a run is a move. -/
theorem after_move (actions : List Action) (a : Action) :
    ∃ es, Move a (after settings actions).engine (after settings (actions ++ [a])).engine es ∧
      (after settings (actions ++ [a])).published = (after settings actions).published ++ es := by
  rw [after_concat]
  exact step_move settings _ a (after_keyed settings actions)

theorem mem_proposalIds (actions : List Action) {id : ProposalId} {p : Proposal}
    (hp : (after settings actions).engine.proposals.find? id = some p) :
    id ∈ actions.filterMap Action.proposalId? := by
  induction actions using List.reverseRecOn generalizing p with
  | nil => cases hp
  | append_singleton actions a ih =>
      obtain ⟨es, hmove, _⟩ := after_move settings actions a
      rw [List.filterMap_append, List.mem_append]
      rcases hmove.find?_cases hp with ⟨q, hq, _⟩ | ⟨ha, _⟩
      · exact .inl (ih hq)
      · exact .inr (List.mem_filterMap.mpr ⟨a, List.mem_singleton_self a, ha⟩)

theorem mem_commitmentIds (actions : List Action) {id : CommitmentId} {c : Commitment}
    (hc : (after settings actions).engine.commitments.find? id = some c) :
    id ∈ actions.filterMap Action.commitmentId? := by
  induction actions using List.reverseRecOn generalizing c with
  | nil => cases hc
  | append_singleton actions a ih =>
      obtain ⟨es, hmove, _⟩ := after_move settings actions a
      rw [List.filterMap_append, List.mem_append]
      rcases hmove.commitments_cases with ⟨h, _⟩ | ⟨p, d, ha, _, _, _, h⟩
      · rw [h] at hc
        exact .inl (ih hc)
      · simp only [h, withCommitment, Table.find?_insert] at hc
        split at hc
        next hid =>
          exact .inr (List.mem_filterMap.mpr ⟨a, List.mem_singleton_self a, hid ▸ ha⟩)
        next => exact .inl (ih hc)

/-- An id that an action draws is not in use when all ids are distinct. -/
theorem proposalId_unused {actions : List Action} {a : Action}
    (h : ((actions ++ [a]).filterMap Action.proposalId?).Nodup) (id : ProposalId) (p : Proposal)
    (hp : (after settings actions).engine.proposals.find? id = some p) :
    a.proposalId? ≠ some id :=
  fun ha => not_drawn_before h ha (mem_proposalIds settings actions hp)

theorem commitmentId_unused {actions : List Action} {a : Action}
    (h : ((actions ++ [a]).filterMap Action.commitmentId?).Nodup) (id : CommitmentId)
    (c : Commitment) (hc : (after settings actions).engine.commitments.find? id = some c) :
    a.commitmentId? ≠ some id :=
  fun ha => not_drawn_before h ha (mem_commitmentIds settings actions hc)

end Run

end AgentGovernance.Consensus

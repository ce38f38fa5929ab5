import AgentGovernance.Proofs.Consensus.Move

/-!
# How commits report expiry

A commit of an expired proposal says that the proposal has expired, except in one case: if the
proposal had expired before the second part of the commit began, that part finds it closed and says
no more than that it is in the wrong state.
-/
namespace AgentGovernance

/-- Whether a commit failed for the policy, the proof system or its deadline. -/
def Failure.isExternal : Failure → Bool
  | .constraintViolation (.policy _) | .constraintViolation (.notCompliant _)
  | .constraintViolation (.proof _) | .timeout _ => true
  | _ => false

namespace Consensus

/-- What a commit says of an expired proposal; `late` if its second part has found it expired. -/
def expiryFailure (id : ProposalId) (late : Bool) : Failure :=
  if late then .invalidState (.notCommittable id .expired) else .expired id.uuid.text

def isExpired (s : Consensus) (id : ProposalId) : Bool :=
  (s.proposals.find? id).any (·.state = .expired)

variable {s : Consensus} {id : ProposalId} {f : Failure}

theorem isExpired_iff : s.isExpired id = true ↔
    ∃ p, s.proposals.find? id = some p ∧ p.state = .expired := by
  simp [isExpired, Option.any_eq_true]

theorem read_cases (hs : s.Keyed) (id : ProposalId) (now : Instant) :
    ((s.read id now).result = .error (notFound id) ∧
      (s.read id now).state.proposals.find? id = none) ∨
    ∃ p, (s.read id now).result = .ok p ∧
      (s.read id now).state.proposals.find? id = some p ∧ p.id = id := by
  unfold read
  split
  next hnone => exact .inl ⟨rfl, hnone⟩
  next p hp =>
    have hid := hs id p hp
    split
    next hdue =>
      have hdueid : (p.expireIfDue now).id = id := by rw [(successor_expireIfDue p now).id_eq, hid]
      refine .inr ⟨p.expireIfDue now, rfl, ?_, hdueid⟩
      simp only [Outcome.ok, withProposal, hdueid, Table.find?_insert_self]
    next => exact .inr ⟨p, rfl, hp, hid⟩

theorem openCommit_error {agreement : Option AgreementRef} {deadline : Option Nat} {tick : Nat}
    {now : Instant} (hs : s.Keyed)
    (hf : (s.openCommit id agreement deadline tick now).result = .error f)
    (hexternal : f.isExternal = false)
    (hexpired : (s.openCommit id agreement deadline tick now).state.isExpired id = true) :
    f = expiryFailure id false := by
  rw [(openCommit_eq_read id agreement deadline tick now).1] at hexpired
  obtain ⟨q, hq, hstate⟩ := isExpired_iff.mp hexpired
  rcases read_cases hs id now with ⟨-, hnone⟩ | ⟨p, hread, hp, hid⟩
  · rw [hnone] at hq
    cases hq
  · rw [hp] at hq
    obtain rfl := Option.some.inj hq
    rw [openCommit, Outcome.andThen, hread] at hf
    simp only at hf
    split at hf
    · cases hf
    · simp only [ensureOpen, hstate, if_true] at hf
      cases hf
      rw [expiryFailure, hid]
      rfl

theorem attest_of_expired (proofs : ProofSystem) {p : Proposal} (h : p.state = .expired) :
    attest proofs p = .error (.invalidState (.notCommittable p.id .expired)) := by
  have hclosed : p.ensureCommittable = .error (.invalidState (.notCommittable p.id .expired)) := by
    simp [Proposal.ensureCommittable, h]
  simp only [attest, hclosed, bind, Except.bind]

theorem finalize_error {proofs : ProofSystem} {agreement : Option AgreementRef} {fresh : Uuid}
    {now : Instant} (hs : s.Keyed)
    (hf : (s.finalize proofs id agreement fresh now).result = .error f)
    (hexpired : (s.finalize proofs id agreement fresh now).state.isExpired id = true) :
    f = expiryFailure id (s.isExpired id) := by
  unfold finalize at hf hexpired
  cases hc : s.commitmentFor id with
  | some c =>
      simp only [hc] at hf
      cases hf
  | none =>
      cases hp : s.proposals.find? id with
      | none =>
          simp only [hc, hp, Outcome.refuse] at hexpired
          rw [isExpired, hp] at hexpired
          cases hexpired
      | some p =>
          obtain rfl := hs id p hp
          simp only [hc, hp] at hf hexpired
          by_cases hdue : p.isOverdue now = true
          · rw [if_pos hdue] at hf
            cases hf
            have hopen : p.state ≠ .expired := by
              intro hstate
              simp [Proposal.isOverdue, hstate, ProposalState.isTerminal] at hdue
            rw [isExpired, hp, Option.any_some, decide_eq_false hopen]
            rfl
          · rw [if_neg hdue] at hf hexpired
            cases hattest : attest proofs p with
            | ok q =>
                simp only [hattest] at hf
                cases hf
            | error g =>
                simp only [hattest, Outcome.refuse] at hf hexpired
                cases hf
                have hstate : p.state = .expired := by
                  simpa [isExpired, hp] using hexpired
                rw [attest_of_expired proofs hstate] at hattest
                cases hattest
                rw [hexpired]
                rfl

theorem closeCommit_error {proofs : ProofSystem} {fresh : Uuid} {now : Instant} {call : OpenCommit}
    {judgement : Except PolicyError Decision} (hs : s.Keyed)
    (hf : (s.closeCommit proofs fresh now call judgement).result = .error f)
    (hexternal : f.isExternal = false)
    (hexpired : (s.closeCommit proofs fresh now call judgement).state.isExpired call.proposal = true) :
    f = expiryFailure call.proposal (s.isExpired call.proposal) := by
  unfold closeCommit at hf hexpired
  split at hf
  next agreement hagreement =>
    rw [hagreement] at hexpired
    cases judgement with
    | error e =>
        cases hf
        cases hexternal
    | ok d =>
        simp only [finishCommit] at hf hexpired
        split at hf
        next hcompliant =>
          rw [if_pos hcompliant] at hexpired
          exact finalize_error hs hf hexpired
        next =>
          cases hf
          cases hexternal
  next hagreement =>
    rw [hagreement] at hexpired
    exact finalize_error hs hf hexpired

/-! ## Runs -/

/-- Whether an action is the second part of a commit. -/
def Action.isClose : Action → Bool
  | .closeCommit _ _ _ _ _ => true
  | _ => false

theorem Run.answer_inj {r r' : Run} {id jd : ProposalId} {x y : Except Failure Commitment}
    (hr : r'.answers = r.answers) (h : (r'.answer id x).answers = r.answers ++ [⟨jd, y⟩]) :
    id = jd ∧ x = y := by
  rw [answer, hr] at h
  cases List.append_cancel_left h
  exact ⟨rfl, rfl⟩

/-- A commit that ends while its proposal is expired, and neither for the policy nor the proof system
nor its deadline, says that the proposal has expired, unless its second part has found it so. -/
theorem commit_error_of_expired (settings : Config.ConsensusSettings) (actions : List Action)
    (a : Action) {id : ProposalId} {f : Failure}
    (hanswer : (Run.after settings (actions ++ [a])).answers =
      (Run.after settings actions).answers ++ [⟨id, .error f⟩])
    (hexternal : f.isExternal = false)
    (hexpired : (Run.after settings (actions ++ [a])).engine.isExpired id = true) :
    f = expiryFailure id (a.isClose && (Run.after settings actions).engine.isExpired id) := by
  have hs := Run.after_keyed settings actions
  rw [Run.after_concat] at hanswer hexpired
  generalize Run.after settings actions = r at hs hanswer hexpired ⊢
  cases a with
  | propose | vote | get | tally | expireOverdue => simp [Run.step, Run.apply] at hanswer
  | openCommit jd agreement deadline tick now =>
      rw [Run.step, Run.opened_engine] at hexpired
      simp only [Run.step, Run.opened] at hanswer
      split at hanswer
      next g hg =>
        obtain ⟨rfl, hfg⟩ := Run.answer_inj rfl hanswer
        cases hfg
        exact openCommit_error hs hg hexternal hexpired
      next =>
        obtain ⟨-, hfg⟩ := Run.answer_inj rfl hanswer
        cases hfg
      next => simp [Run.apply] at hanswer
  | closeCommit place judgement proofs fresh now =>
      simp only [Run.step] at hanswer hexpired
      split at hanswer
      next => simp at hanswer
      next call hcall =>
        obtain ⟨rfl, hresult⟩ := Run.answer_inj rfl hanswer
        simp only [hcall] at hexpired
        exact closeCommit_error hs hresult hexternal hexpired
  | abandonCommit place =>
      simp only [Run.step] at hanswer
      split at hanswer
      next => simp at hanswer
      next =>
        obtain ⟨-, hfg⟩ := Run.answer_inj rfl hanswer
        cases hfg
        cases hexternal

/-- The proposal expires while its commit waits for the judgement. -/
def sweptCommit : List Action :=
  [.propose ⟨⟨⟨7⟩⟩, "deploy", 1, none, none⟩ ⟨1⟩ ⟨0⟩,
   .vote ⟨⟨1⟩⟩ ⟨⟨"v1"⟩, .approve, 1, "s"⟩ ⟨5⟩,
   .openCommit ⟨⟨1⟩⟩ (some ⟨"agreement"⟩) none 0 ⟨6⟩,
   .expireOverdue ⟨1000000000000000⟩]

/-- The judgement that comes then. -/
def judgedLate : Action :=
  .closeCommit 0 (.ok ⟨true, ""⟩) ⟨"open", fun _ => .ok ⟨"open", "", none⟩, fun _ _ => true⟩ ⟨2⟩
    ⟨1000000000000001⟩

theorem commit_error_of_expired_sweptCommit :
    ∃ f, (Run.after {} (sweptCommit ++ [judgedLate])).answers = [⟨⟨⟨1⟩⟩, .error f⟩] ∧
      (Run.after {} (sweptCommit ++ [judgedLate])).engine.isExpired ⟨⟨1⟩⟩ = true ∧
      f = .invalidState (.notCommittable ⟨⟨1⟩⟩ .expired) :=
  ⟨_, rfl, rfl, commit_error_of_expired {} sweptCommit judgedLate rfl rfl rfl⟩

end Consensus

end AgentGovernance

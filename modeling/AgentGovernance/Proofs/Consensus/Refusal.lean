import AgentGovernance.Proofs.Consensus.Sweeping

/-!
# Failed calls of consensus

A call that fails leaves the tables as they were, with one exception: a vote or a commit that finds
its proposal overdue expires it, and that is all it does. A commit looks at the proposal twice, at
its beginning and after the judgement, so it may find it overdue at either time.
-/
namespace AgentGovernance.Consensus

/-- Whether the time of an open proposal is up. -/
def isDue (s : Consensus) (id : ProposalId) (now : Instant) : Bool :=
  (s.proposals.find? id).any (·.isOverdue now)

variable {α β : Type} {s : Consensus} {id : ProposalId} {now later : Instant}

/-- Nothing changes and nothing is published. -/
structure Untouched (s : Consensus) (o : Outcome Consensus α) : Prop where
  state : o.state = s
  published : o.published = []

/-- A proposal that is overdue expires, which is published and told to the caller, and nothing else
happens. -/
structure OnlyExpires (s : Consensus) (id : ProposalId) (now : Instant) (p : Proposal)
    (o : Outcome Consensus α) : Prop where
  found : s.proposals.find? id = some p
  overdue : p.isOverdue now = true
  state : o.state = { s with proposals := s.proposals.insert id { p with state := .expired } }
  published : o.published = [expiredEvent { p with state := .expired }]
  result : o.result = .error (.expired id.uuid.text)

/-- What a failed call about a proposal may do. -/
def Spoils (s : Consensus) (id : ProposalId) (now : Instant) (o : Outcome Consensus α) : Prop :=
  Untouched s o ∨ ∃ p, OnlyExpires s id now p o

theorem isDue_eq_true : s.isDue id now = true ↔
    ∃ p, s.proposals.find? id = some p ∧ p.isOverdue now = true := by
  simp [isDue, Option.any_eq_true]

theorem untouched_refuse (f : Failure) : Untouched s (.refuse s f : Outcome Consensus α) :=
  ⟨rfl, rfl⟩

theorem onlyExpires_expire {p : Proposal} (hs : s.Keyed) (hp : s.proposals.find? id = some p)
    (hdue : p.isOverdue now = true) :
    OnlyExpires s id now p (s.expire p : Outcome Consensus α) := by
  obtain rfl := hs id p hp
  exact ⟨hp, hdue, rfl, rfl, rfl⟩

theorem propose_of_error {settings : Config.ConsensusSettings} {m : Motion} {fresh : Uuid}
    {f : Failure} (h : (s.propose settings m fresh now).result = .error f) :
    Untouched s (s.propose settings m fresh now) := by
  unfold propose at h ⊢
  split
  next => exact untouched_refuse _
  next hdeadline =>
    rw [hdeadline] at h
    dsimp only at h ⊢
    split
    next => exact untouched_refuse _
    next hopen =>
      rw [hopen] at h
      cases h

/-- A proposal that is not overdue under this id, or none at all. -/
theorem isOverdue_eq_false (h : s.isDue id now = false) {p : Proposal}
    (hp : s.proposals.find? id = some p) : p.isOverdue now = false := by
  simpa only [isDue, hp, Option.any_some] using h

theorem vote_of_error (hs : s.Keyed) {b : Ballot} {f : Failure}
    (h : (s.vote id b now).result = .error f) :
    s.isDue id now = false ∧ Untouched s (s.vote id b now) ∨
      ∃ p, OnlyExpires s id now p (s.vote id b now) := by
  cases hdue : s.isDue id now with
  | true =>
      obtain ⟨p, hp, hoverdue⟩ := isDue_eq_true.mp hdue
      have hvote : s.vote id b now = s.expire p := by simp only [vote, hp, hoverdue, if_true]
      rw [hvote]
      exact .inr ⟨p, onlyExpires_expire hs hp hoverdue⟩
  | false =>
      refine .inl ⟨rfl, ?_⟩
      unfold vote at h ⊢
      split
      next => exact untouched_refuse _
      next p hp =>
        have hopen : ¬p.isOverdue now = true := by simp [isOverdue_eq_false hdue hp]
        rw [hp] at h
        dsimp only at h ⊢
        rw [if_neg hopen] at h ⊢
        split
        next => exact untouched_refuse _
        next hrecord =>
          rw [hrecord] at h
          cases h

/-! ## Commits -/

variable {proofs : ProofSystem} {agreement : Option AgreementRef} {fresh : Uuid}

theorem Completion.spoils {k : CommitmentId} {o : Outcome Consensus Commitment}
    (h : Completion s proofs id k now o) (hs : s.Keyed) {f : Failure} (hf : o.result = .error f) :
    Spoils s id now o := by
  cases h with
  | already | commit => cases hf
  | refuse => exact .inl (untouched_refuse _)
  | @expire p hp hdue => exact .inr ⟨p, onlyExpires_expire hs hp hdue⟩

/-- A failure ends a call, whatever would come next. -/
theorem andThen_of_error {o : Outcome Consensus α} {f : Failure} (h : o.result = .error f)
    (next : Consensus → α → Outcome Consensus β) :
    o.andThen next = ⟨o.state, o.published, .error f⟩ := by
  rw [Outcome.andThen, h]

theorem OnlyExpires.andThen {p : Proposal} {o : Outcome Consensus α}
    (h : OnlyExpires s id now p o) (next : Consensus → α → Outcome Consensus β) :
    OnlyExpires s id now p (o.andThen next) := by
  rw [andThen_of_error h.result]
  exact ⟨h.found, h.overdue, h.state, h.published, rfl⟩

theorem Spoils.andThen {o : Outcome Consensus α} (h : Spoils s id now o) {f : Failure}
    (hf : o.result = .error f) (next : Consensus → α → Outcome Consensus β) :
    Spoils s id now (o.andThen next) := by
  rcases h with h | ⟨p, h⟩
  · rw [andThen_of_error hf]
    exact .inl ⟨h.state, h.published⟩
  · exact .inr ⟨p, h.andThen next⟩

theorem Spoils.mapResult {o : Outcome Consensus α} (h : Spoils s id now o) (g : α → β) :
    Spoils s id now (o.mapResult g) := by
  rcases h with h | ⟨p, h⟩
  · exact .inl ⟨h.state, h.published⟩
  · exact .inr ⟨p, h.found, h.overdue, h.state, h.published, congrArg (Except.map g) h.result⟩

/-- A part that changed nothing leaves the next one to say what the call does. -/
theorem Untouched.andThen_of_ok {o : Outcome Consensus α} (h : Untouched s o) {a : α}
    (ha : o.result = .ok a) (next : Consensus → α → Outcome Consensus β) :
    o.andThen next = next s a := by
  rw [Outcome.andThen, ha, h.state, h.published]
  rfl

theorem read_of_due (hdue : s.isDue id now = true) :
    ∃ p, s.proposals.find? id = some p ∧ p.isOverdue now = true ∧
      s.read id now = .ok (s.withProposal { p with state := .expired })
        { p with state := .expired } [expiredEvent { p with state := .expired }] := by
  obtain ⟨p, hp, hoverdue⟩ := isDue_eq_true.mp hdue
  refine ⟨p, hp, hoverdue, ?_⟩
  simp only [read, hp, hoverdue, if_true, Proposal.expireIfDue]

theorem read_of_not_due (hdue : s.isDue id now = false) : Untouched s (s.read id now) := by
  unfold read
  split
  next => exact untouched_refuse _
  next p hp =>
    rw [if_neg (by simp [isOverdue_eq_false hdue hp])]
    exact ⟨rfl, rfl⟩

/-- The beginning of a commit expires its proposal if it is overdue then, and fails for it, unless
there is a commitment to be returned. -/
theorem openCommit_of_due (hs : s.Keyed) {deadline : Option Nat} {tick : Nat}
    (hdue : s.isDue id now = true) :
    (∃ c, (s.openCommit id agreement deadline tick now).result = .ok (.already c)) ∨
      ∃ p, OnlyExpires s id now p (s.openCommit id agreement deadline tick now) := by
  obtain ⟨p, hp, hoverdue, hread⟩ := read_of_due hdue
  obtain rfl := hs id p hp
  rw [openCommit, hread]
  cases hcommitment : s.commitmentFor p.id with
  | some c =>
      have hkept : (s.withProposal { p with state := .expired }).commitmentFor p.id = some c :=
        hcommitment
      apply Or.inl
      simp only [Outcome.andThen, Outcome.ok, hkept]
      exact ⟨c, rfl⟩
  | none =>
      have hkept : (s.withProposal { p with state := .expired }).commitmentFor p.id = none :=
        hcommitment
      apply Or.inr
      simp only [Outcome.andThen, Outcome.ok, hkept, ensureOpen, if_true]
      exact ⟨p, hp, hoverdue, rfl, rfl, rfl⟩

theorem openCommit_of_not_due {deadline : Option Nat} {tick : Nat}
    (hdue : s.isDue id now = false) :
    Untouched s (s.openCommit id agreement deadline tick now) := by
  have hread := read_of_not_due hdue
  obtain ⟨hstate, hpublished⟩ := openCommit_eq_read (s := s) id agreement deadline tick now
  exact ⟨hstate.trans hread.state, hpublished.trans hread.published⟩

/-- A commit of a proposal that is not overdue at first changes nothing before its second part. -/
theorem startCommit_of_not_due (hs : s.Keyed) (hdue : s.isDue id now = false)
    (proofs : ProofSystem) (agreement : Option AgreementRef) (deadline : Option Nat) (tick : Nat)
    (fresh : Uuid) (later : Instant) :
    (∃ f, (s.startCommit proofs id agreement deadline tick fresh now later).result = .error f ∧
        Spoils s id later (s.startCommit proofs id agreement deadline tick fresh now later)) ∨
      (∃ c, (s.startCommit proofs id agreement deadline tick fresh now later).result =
        .ok (.finished c)) ∨
      ∃ call : PendingCommit, call.proposal = id ∧
        s.startCommit proofs id agreement deadline tick fresh now later =
          .ok s (.waiting call) := by
  have hopen : Untouched s (s.openCommit id agreement deadline tick now) :=
    openCommit_of_not_due hdue
  unfold startCommit
  cases hresult : (s.openCommit id agreement deadline tick now).result with
  | error f =>
      rw [andThen_of_error hresult]
      exact .inl ⟨f, rfl, .inl ⟨hopen.state, hopen.published⟩⟩
  | ok start =>
      rw [hopen.andThen_of_ok hresult]
      cases start with
      | already c => exact .inr (.inl ⟨c, rfl⟩)
      | opened call =>
          obtain rfl := openCommit_opened hresult
          dsimp only
          split
          next a _ => exact .inr (.inr ⟨_, rfl, rfl⟩)
          next =>
            cases hfinal : (s.finalize proofs call.proposal none fresh later).result with
            | error f =>
                have hcompletion := finalize_completion hs proofs call.proposal none fresh later
                refine .inl ⟨f, ?_, (hcompletion.spoils hs hfinal).mapResult _⟩
                rw [Outcome.mapResult, hfinal]
                rfl
            | ok c =>
                refine .inr (.inl ⟨c, ?_⟩)
                rw [Outcome.mapResult, hfinal]
                rfl

/-- A commit that fails expires its proposal if it is overdue at the beginning. Otherwise it changes
nothing, or the proposal is overdue at the second part and expires then. -/
theorem commit_of_error (hs : s.Keyed) {deadline : Option Nat} {tick : Nat}
    {judgement : Option (Except PolicyError Decision)} {f : Failure}
    (h : (s.commit proofs id agreement deadline tick fresh judgement now later).result = .error f) :
    (∃ p, OnlyExpires s id now p
        (s.commit proofs id agreement deadline tick fresh judgement now later)) ∨
      s.isDue id now = false ∧
        Spoils s id later
          (s.commit proofs id agreement deadline tick fresh judgement now later) := by
  cases hdue : s.isDue id now with
  | true =>
      have hopen : (∃ c, (s.openCommit id agreement deadline tick now).result = .ok (.already c)) ∨
          ∃ p, OnlyExpires s id now p (s.openCommit id agreement deadline tick now) :=
        openCommit_of_due hs hdue
      rcases hopen with ⟨c, hresult⟩ | ⟨p, hp⟩
      · simp only [commit, startCommit, Outcome.andThen, hresult, Outcome.ok] at h
        cases h
      · exact .inl ⟨p, (hp.andThen _).andThen _⟩
  | false =>
      refine .inr ⟨rfl, ?_⟩
      unfold commit at h ⊢
      rcases startCommit_of_not_due hs hdue proofs agreement deadline tick fresh later with
        ⟨g, hresult, hspoils⟩ | ⟨c, hresult⟩ | ⟨call, rfl, hstart⟩
      · exact hspoils.andThen hresult _
      · simp only [Outcome.andThen, hresult, Outcome.ok] at h
        cases h
      · rw [hstart] at h ⊢
        cases judgement with
        | none => exact .inl (untouched_refuse _)
        | some reply =>
            exact (finishCommit_completion hs proofs fresh later call reply).spoils hs h

/-- Failed calls that nothing interrupts leave no trace in an engine, apart from the expiry of an
overdue proposal. -/
structure FailsCleanly (settings : Config.ConsensusSettings) (s : Consensus) : Prop where
  propose : ∀ m fresh now f, (s.propose settings m fresh now).result = .error f →
    Untouched s (s.propose settings m fresh now)
  vote : ∀ id b now f, (s.vote id b now).result = .error f →
    s.isDue id now = false ∧ Untouched s (s.vote id b now) ∨
      ∃ p, OnlyExpires s id now p (s.vote id b now)
  /-- A commit reads the clock again when it has been judged. -/
  commit : ∀ proofs id agreement deadline tick fresh judgement now later f,
    (s.commit proofs id agreement deadline tick fresh judgement now later).result = .error f →
      (∃ p, OnlyExpires s id now p
        (s.commit proofs id agreement deadline tick fresh judgement now later)) ∨
      s.isDue id now = false ∧
        (Untouched s (s.commit proofs id agreement deadline tick fresh judgement now later) ∨
          ∃ p, OnlyExpires s id later p
            (s.commit proofs id agreement deadline tick fresh judgement now later))

theorem Keyed.failsCleanly (hs : s.Keyed) (settings : Config.ConsensusSettings) :
    FailsCleanly settings s where
  propose _ _ _ _ := propose_of_error
  vote _ _ _ _ := vote_of_error hs
  commit _ _ _ _ _ _ _ _ _ _ := commit_of_error hs

end AgentGovernance.Consensus

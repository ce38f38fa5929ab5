import AgentGovernance.Proofs.Consensus.Move

/-!
# Sweeps make no difference to callers

An overdue proposal expires when it is next read, voted on or committed, or in a sweep before that.
Callers cannot tell the two apart: put sweeps anywhere between the calls of a run whose clock never
goes back, and every call still returns what it returned.

The swept engine is ahead of the other by some expired proposals and by nothing else. `Lags` says
so, and that each of them was overdue at some reading of the clock; a call that comes to such a
proposal later finds it overdue where no sweep has been.
-/
namespace AgentGovernance.Consensus

variable {past : List Instant} {s t : Consensus} {p : Proposal} {now later : Instant}

theorem isOverdue_mono (h : p.isOverdue now = true) (hle : now ≤ later) :
    p.isOverdue later = true := by
  simp only [Proposal.isOverdue, Bool.and_eq_true, Proposal.isPastTimeout, decide_eq_true_eq] at h ⊢
  exact ⟨h.1, Int.le_trans h.2 hle⟩

/-- Under one id a swept table holds what the other holds, or has expired what was overdue. -/
def Lag (past : List Instant) (o swept : Option Proposal) : Prop :=
  swept = o ∨ ∃ p, ∃ r ∈ past, o = some p ∧ p.isOverdue r = true ∧
    swept = some { p with state := .expired }

/-- An engine and one that has been swept besides, after some readings of the clock. -/
structure Lags (past : List Instant) (s t : Consensus) : Prop where
  keyed : s.Keyed
  proposals : ∀ id, Lag past (s.proposals.find? id) (t.proposals.find? id)
  commitments : t.commitments = s.commitments
  commitmentOf : t.commitmentOf = s.commitmentOf

namespace Lags

theorem empty : Lags [] {} {} := ⟨keyed_empty, fun _ => .inl rfl, rfl, rfl⟩

theorem mono (h : Lags past s t) {more : List Instant} (hmore : past ⊆ more) : Lags more s t := by
  refine ⟨h.keyed, fun id => ?_, h.commitments, h.commitmentOf⟩
  refine (h.proposals id).imp_right ?_
  rintro ⟨p, r, hr, hexpired⟩
  exact ⟨p, r, hmore hr, hexpired⟩

/-- Under an id there is the same in both, or a proposal that is overdue by now in the one and
expired in the other. -/
theorem find?_cases (h : Lags past s t) (hnow : ∀ r ∈ past, r ≤ now) (id : ProposalId) :
    t.proposals.find? id = s.proposals.find? id ∨
      ∃ p, s.proposals.find? id = some p ∧ p.isOverdue now = true ∧
        t.proposals.find? id = some { p with state := .expired } := by
  refine (h.proposals id).imp_right ?_
  rintro ⟨p, r, hr, hp, hdue, hq⟩
  exact ⟨p, hp, isOverdue_mono hdue (hnow r hr), hq⟩

theorem commitmentFor (h : Lags past s t) (id : ProposalId) :
    t.commitmentFor id = s.commitmentFor id := by
  rw [Consensus.commitmentFor, Consensus.commitmentFor, h.commitments, h.commitmentOf]

theorem withProposal (h : Lags past s t) (q : Proposal) :
    Lags past (s.withProposal q) (t.withProposal q) := by
  refine ⟨?_, ?_, h.commitments, h.commitmentOf⟩
  · intro id r hr
    rw [Consensus.withProposal, Table.find?_insert] at hr
    split at hr
    next hid => rw [← Option.some.inj hr, hid]
    next => exact h.keyed id r hr
  · intro id
    rw [Consensus.withProposal, Consensus.withProposal, Table.find?_insert, Table.find?_insert]
    split
    · exact .inl rfl
    · exact h.proposals id

theorem withCommitment (h : Lags past s t) (q : Proposal) (c : Commitment) :
    Lags past (s.withCommitment q c) (t.withCommitment q c) := by
  obtain ⟨hkeyed, hproposals, -, -⟩ := h.withProposal q
  refine ⟨hkeyed, hproposals, ?_, ?_⟩
  · rw [Consensus.withCommitment, Consensus.withCommitment, h.commitments]
  · rw [Consensus.withCommitment, Consensus.withCommitment, h.commitmentOf]

/-- The engine that lags expires a proposal that the other has expired before. -/
theorem catchUp (h : Lags past s t)
    (hq : t.proposals.find? p.id = some { p with state := .expired }) :
    Lags past (s.withProposal { p with state := .expired }) t := by
  refine ⟨(h.withProposal _).keyed, ?_, h.commitments, h.commitmentOf⟩
  intro id
  rw [Consensus.withProposal, Table.find?_insert]
  split
  next hid =>
    rw [hid, hq]
    exact .inl rfl
  next => exact h.proposals id

/-- A sweep takes the swept engine further ahead. -/
theorem sweep (h : Lags past s t) (now : Instant) :
    Lags (past ++ [now]) s (t.expireOverdue now).state := by
  refine ⟨h.keyed, ?_, h.commitments, h.commitmentOf⟩
  intro id
  have hswept : (t.expireOverdue now).state.proposals.find? id =
      (t.proposals.find? id).map (·.expireIfDue now) := Table.find?_map _ _ _
  rw [hswept]
  rcases h.proposals id with hsame | ⟨p, r, hr, hp, hdue, hq⟩
  · rw [hsame]
    cases hp : s.proposals.find? id with
    | none => exact .inl rfl
    | some p =>
        rw [Option.map_some, Proposal.expireIfDue]
        split
        next hdue => exact .inr ⟨p, now, List.mem_concat_self, rfl, hdue, rfl⟩
        next => exact .inl rfl
  · rw [hq]
    exact .inr ⟨p, r, List.mem_append_left _ hr, hp, hdue, rfl⟩

end Lags

/-! ## One operation -/

variable {α β : Type}

/-- One operation on both engines: it returns the same, and the one still lags. -/
structure Alike (past : List Instant) (o swept : Outcome Consensus α) : Prop where
  result : swept.result = o.result
  lags : Lags past o.state swept.state

namespace Alike

theorem refuse (h : Lags past s t) (f : Failure) :
    Alike past (.refuse s f : Outcome Consensus α) (.refuse t f) := ⟨rfl, h⟩

theorem ok (h : Lags past s t) (a : α) (es es' : List Event) :
    Alike past (.ok s a es) (.ok t a es') := ⟨rfl, h⟩

theorem andThen {o swept : Outcome Consensus α} {next : Consensus → α → Outcome Consensus β}
    (h : Alike past o swept)
    (hnext : ∀ a, o.result = .ok a → Alike past (next o.state a) (next swept.state a)) :
    Alike past (o.andThen next) (swept.andThen next) := by
  rw [Outcome.andThen, Outcome.andThen, h.result]
  cases ho : o.result with
  | error f => exact ⟨rfl, h.lags⟩
  | ok a => exact ⟨(hnext a ho).result, (hnext a ho).lags⟩

theorem mapResult {o swept : Outcome Consensus α} (h : Alike past o swept) (f : α → β) :
    Alike past (o.mapResult f) (swept.mapResult f) :=
  ⟨congrArg (Except.map f) h.result, h.lags⟩

end Alike

section Operations

variable (h : Lags past s t) (hnow : ∀ r ∈ past, r ≤ now)
include h

theorem propose_alike (settings : Config.ConsensusSettings) (m : Motion) (fresh : Uuid)
    (now : Instant) :
    Alike past (s.propose settings m fresh now) (t.propose settings m fresh now) := by
  unfold propose
  split
  · exact .refuse h _
  · dsimp only
    split
    · exact .refuse h _
    · exact .ok (h.withProposal _) _ _ _

/-- Expiring a proposal on both sides. -/
theorem expire_alike (p : Proposal) : Alike past (s.expire p (α := α)) (t.expire p) :=
  ⟨rfl, h.withProposal _⟩

include hnow

/-- A vote on a proposal that a sweep has expired is told so, as it would be told if it had found the
proposal overdue itself. -/
theorem vote_alike (id : ProposalId) (b : Ballot) :
    Alike past (s.vote id b now) (t.vote id b now) := by
  rcases h.find?_cases hnow id with hsame | ⟨p, hp, hdue, hq⟩
  · rw [vote, vote, hsame]
    split
    · exact .refuse h _
    next p _ =>
      split
      · exact expire_alike h p
      · dsimp only
        split
        · exact .refuse h _
        · exact .ok (h.withProposal _) _ _ _
  · obtain rfl := h.keyed id p hp
    have hlazy : s.vote p.id b now = s.expire p := by simp only [vote, hp, hdue, if_true]
    have hswept : t.vote p.id b now = .refuse t (.expired p.id.uuid.text) := by
      rw [vote, hq]
      rfl
    rw [hlazy, hswept]
    exact ⟨rfl, h.catchUp hq⟩

/-- Reading a proposal leaves the same under its id on both sides. -/
theorem read_alike (id : ProposalId) :
    Alike past (s.read id now) (t.read id now) ∧
      (t.read id now).state.proposals.find? id = (s.read id now).state.proposals.find? id := by
  rcases h.find?_cases hnow id with hsame | ⟨p, hp, hdue, hq⟩
  · rw [read, read, hsame]
    split
    · exact ⟨.refuse h _, hsame⟩
    next p hp =>
      obtain rfl := h.keyed id p hp
      split
      next =>
        refine ⟨.ok (h.withProposal _) _ _ _, ?_⟩
        dsimp only [Outcome.ok]
        rw [withProposal, withProposal, (successor_expireIfDue p now).id_eq,
          Table.find?_insert_self, Table.find?_insert_self]
      next => exact ⟨.ok h _ _ _, hsame⟩
  · obtain rfl := h.keyed id p hp
    have hlazy : s.read p.id now = .ok (s.withProposal { p with state := .expired })
        { p with state := .expired } [expiredEvent { p with state := .expired }] := by
      simp only [read, hp, hdue, if_true, Proposal.expireIfDue]
    have hswept : t.read p.id now = .ok t { p with state := .expired } := by
      rw [read, hq]
      rfl
    rw [hlazy, hswept]
    refine ⟨⟨rfl, h.catchUp hq⟩, ?_⟩
    exact hq.trans (Table.find?_insert_self _ _ _).symm

theorem openCommit_alike (id : ProposalId) (agreement : Option AgreementRef)
    (deadline : Option Nat) (tick : Nat) :
    Alike past (s.openCommit id agreement deadline tick now)
      (t.openCommit id agreement deadline tick now) := by
  have hread := (read_alike h hnow id).1
  refine hread.andThen fun p _ => ?_
  rw [hread.lags.commitmentFor id]
  split
  · exact .ok hread.lags _ _ _
  · split
    · exact .refuse hread.lags _
    · split
      · exact .refuse hread.lags _
      · exact .ok hread.lags _ _ _

end Operations

/-! ## Commits -/

/-- A commit from its beginning to its end. While it waits there may be a judgement, or its deadline
passes first. -/
def commit (s : Consensus) (proofs : ProofSystem) (id : ProposalId)
    (agreement : Option AgreementRef) (deadline : Option Nat) (tick : Nat) (fresh : Uuid)
    (judgement : Option (Except PolicyError Decision)) (now later : Instant) :
    Outcome Consensus Commitment :=
  (s.startCommit proofs id agreement deadline tick fresh now later).andThen fun s progress =>
    match progress with
    | .finished c => .ok s c
    | .waiting call =>
        match judgement with
        | none => .refuse s (.timeout (.missed "commit" .whileRunning))
        | some reply => s.finishCommit proofs fresh later call reply

section Commits

variable {id : ProposalId} {agreement : Option AgreementRef} {deadline : Option Nat} {tick : Nat}
  {fresh : Uuid} {proofs : ProofSystem}

theorem openCommit_opened {call : OpenCommit}
    (h : (s.openCommit id agreement deadline tick now).result = .ok (.opened call)) :
    call.proposal = id := by
  unfold openCommit Outcome.andThen at h
  split at h
  · cases h
  · dsimp only at h
    split at h
    · cases h
    · split at h
      · cases h
      · split at h
        · cases h
        · cases h
          rfl

/-- A commit waits for the judgement of its own proposal and has only read it so far. -/
theorem startCommit_waiting {call : PendingCommit}
    (h : (s.startCommit proofs id agreement deadline tick fresh now later).result =
      .ok (.waiting call)) :
    call.proposal = id ∧
      (s.startCommit proofs id agreement deadline tick fresh now later).state =
        (s.read id now).state := by
  rw [← (openCommit_eq_read id agreement deadline tick now).1]
  unfold startCommit Outcome.andThen at h ⊢
  cases hopen : (s.openCommit id agreement deadline tick now).result with
  | error f =>
      rw [hopen] at h
      cases h
  | ok start =>
      rw [hopen] at h
      cases start with
      | already c => cases h
      | opened c =>
          obtain rfl := openCommit_opened hopen
          dsimp only at h ⊢
          split at h
          next => cases h; exact ⟨rfl, rfl⟩
          next =>
            exfalso
            revert h
            rw [Outcome.mapResult]
            cases (Consensus.finalize _ proofs c.proposal none fresh later).result <;> exact nofun

/-- The second part of a commit, of a proposal that is the same on both sides. -/
theorem finalize_alike (h : Lags past s t) (agreement : Option AgreementRef)
    (hsame : t.proposals.find? id = s.proposals.find? id) (now : Instant) :
    Alike past (s.finalize proofs id agreement fresh now)
      (t.finalize proofs id agreement fresh now) := by
  rw [finalize, finalize, h.commitmentFor id, hsame]
  split
  · exact .ok h _ _ _
  · exact .refuse h _
  next p _ _ =>
    split
    · exact expire_alike h p
    · split
      · exact .refuse h _
      · exact .ok (h.withCommitment _ _) _ _ _

theorem finishCommit_alike (h : Lags past s t) {call : PendingCommit}
    (hsame : t.proposals.find? call.proposal = s.proposals.find? call.proposal)
    (reply : call.request.Reply) (now : Instant) :
    Alike past (s.finishCommit proofs fresh now call reply)
      (t.finishCommit proofs fresh now call reply) := by
  cases reply with
  | error e => exact .refuse h _
  | ok d =>
      simp only [finishCommit]
      split
      · exact finalize_alike h _ hsame now
      · exact .refuse h _

variable (h : Lags past s t) (hnow : ∀ r ∈ past, r ≤ now)
include h hnow

/-- A commit that goes on has found the proposal in time, so both sides have the same one. -/
theorem startCommit_alike (later : Instant) :
    Alike past (s.startCommit proofs id agreement deadline tick fresh now later)
      (t.startCommit proofs id agreement deadline tick fresh now later) := by
  have hopen := openCommit_alike h hnow id agreement deadline tick
  refine hopen.andThen fun start hstart => ?_
  cases start with
  | already c => exact .ok hopen.lags _ _ _
  | opened call =>
      obtain rfl := openCommit_opened hstart
      have hsame := (read_alike h hnow call.proposal).2
      rw [← (openCommit_eq_read call.proposal agreement deadline tick now).1,
        ← (openCommit_eq_read call.proposal agreement deadline tick now).1] at hsame
      dsimp only
      split
      · exact .ok hopen.lags _ _ _
      · exact (finalize_alike hopen.lags none hsame later).mapResult _

theorem commit_alike (judgement : Option (Except PolicyError Decision)) (later : Instant) :
    Alike past (s.commit proofs id agreement deadline tick fresh judgement now later)
      (t.commit proofs id agreement deadline tick fresh judgement now later) := by
  have hstart : Alike past
      (s.startCommit proofs id agreement deadline tick fresh now later)
      (t.startCommit proofs id agreement deadline tick fresh now later) :=
    startCommit_alike h hnow later
  refine hstart.andThen fun progress hprogress => ?_
  cases progress with
  | finished c => exact .ok hstart.lags _ _ _
  | waiting call =>
      cases judgement with
      | none => exact .refuse hstart.lags _
      | some reply =>
          have hanswer := hstart.result.trans hprogress
          obtain ⟨rfl, hlazy⟩ := startCommit_waiting hprogress
          refine finishCommit_alike hstart.lags ?_ reply later
          rw [hlazy, (startCommit_waiting hanswer).2]
          exact (read_alike h hnow call.proposal).2

end Commits

/-! ## Runs -/

/-- A call that runs to its end before the next one begins. -/
inductive Task where
  | propose (m : Motion) (fresh : Uuid) (now : Instant)
  | vote (id : ProposalId) (b : Ballot) (now : Instant)
  | get (id : ProposalId) (now : Instant)
  | tally (id : ProposalId) (now : Instant)
  | commit (id : ProposalId) (agreement : Option AgreementRef) (deadline : Option Nat) (tick : Nat)
      (proofs : ProofSystem) (fresh : Uuid) (judgement : Option (Except PolicyError Decision))
      (now later : Instant)
  | commitmentFor (id : ProposalId)

/-- What a task returns. -/
inductive Reply where
  | proposed (result : Except Failure ProposalId)
  | voted (result : Except Failure Tally)
  | got (result : Except Failure Proposal)
  | tallied (result : Except Failure Tally)
  | committed (result : Except Failure Commitment)
  | commitment (c : Option Commitment)

namespace Task

/-- What the clock shows during a task. The second part of a commit that ends with its first part
may show any later time. -/
def readings : Task → List Instant
  | .propose _ _ now | .vote _ _ now | .get _ now | .tally _ now => [now]
  | .commit _ _ _ _ _ _ _ now later => [now, later]
  | .commitmentFor _ => []

def perform (settings : Config.ConsensusSettings) (s : Consensus) : Task → Consensus × Reply
  | .propose m fresh now =>
      let o := s.propose settings m fresh now
      (o.state, .proposed o.result)
  | .vote id b now => ((s.vote id b now).state, .voted (s.vote id b now).result)
  | .get id now => ((s.read id now).state, .got (s.read id now).result)
  | .tally id now => ((s.tally id now).state, .tallied (s.tally id now).result)
  | .commit id agreement deadline tick proofs fresh judgement now later =>
      let o := s.commit proofs id agreement deadline tick fresh judgement now later
      (o.state, .committed o.result)
  | .commitmentFor id => (s, .commitment (s.commitmentFor id))

end Task

inductive Step where
  | task (x : Task)
  | sweep (now : Instant)

namespace Step

def readings : Step → List Instant
  | .task x => x.readings
  | .sweep now => [now]

def isTask : Step → Bool
  | .task _ => true
  | .sweep _ => false

end Step

/-- The readings of the clock over some steps. -/
def readings (steps : List Step) : List Instant := steps.flatMap Step.readings

/-- An engine and all that its tasks have returned. -/
structure Course where
  engine : Consensus := {}
  replies : List Reply := []

namespace Course

def step (settings : Config.ConsensusSettings) (c : Course) : Step → Course
  | .task x => ⟨(x.perform settings c.engine).1, c.replies ++ [(x.perform settings c.engine).2]⟩
  | .sweep now => { c with engine := (c.engine.expireOverdue now).state }

/-- The course of some steps of an engine that starts with empty tables. -/
def after (settings : Config.ConsensusSettings) (steps : List Step) : Course :=
  steps.foldl (step settings) {}

theorem after_concat (settings : Config.ConsensusSettings) (steps : List Step) (x : Step) :
    after settings (steps ++ [x]) = (after settings steps).step settings x := by
  simp [after]

end Course

theorem Task.perform_alike (settings : Config.ConsensusSettings) (x : Task) (h : Lags past s t)
    (hnow : ∀ r ∈ past, ∀ now ∈ x.readings, r ≤ now) :
    Lags past (x.perform settings s).1 (x.perform settings t).1 ∧
      (x.perform settings t).2 = (x.perform settings s).2 := by
  cases x with
  | propose m fresh now =>
      have halike := propose_alike h settings m fresh now
      exact ⟨halike.lags, congrArg Reply.proposed halike.result⟩
  | vote id b now =>
      have halike := vote_alike h (fun r hr => hnow r hr now List.mem_cons_self) id b
      exact ⟨halike.lags, congrArg Reply.voted halike.result⟩
  | get id now =>
      have halike := (read_alike h (fun r hr => hnow r hr now List.mem_cons_self) id).1
      exact ⟨halike.lags, congrArg Reply.got halike.result⟩
  | tally id now =>
      have halike := (read_alike h (fun r hr => hnow r hr now List.mem_cons_self) id).1.mapResult
        Proposal.tally
      exact ⟨halike.lags, congrArg Reply.tallied halike.result⟩
  | commit id agreement deadline tick proofs fresh judgement now later =>
      have halike : Alike past
          (s.commit proofs id agreement deadline tick fresh judgement now later)
          (t.commit proofs id agreement deadline tick fresh judgement now later) :=
        commit_alike h (fun r hr => hnow r hr now List.mem_cons_self) judgement later
      exact ⟨halike.lags, congrArg Reply.committed halike.result⟩
  | commitmentFor id => exact ⟨h, congrArg Reply.commitment (h.commitmentFor id)⟩

/-- The steps without the sweeps. -/
def unswept (steps : List Step) : List Step := steps.filter Step.isTask

theorem after_lags (settings : Config.ConsensusSettings) {steps : List Step}
    (h : (readings steps).Pairwise (· ≤ ·)) :
    Lags (readings steps) (Course.after settings (unswept steps)).engine
        (Course.after settings steps).engine ∧
      (Course.after settings steps).replies =
        (Course.after settings (unswept steps)).replies := by
  induction steps using List.reverseRecOn with
  | nil => exact ⟨.empty, rfl⟩
  | append_singleton steps x ih =>
      have hreadings : readings (steps ++ [x]) = readings steps ++ x.readings := by
        simp [readings]
      rw [hreadings, List.pairwise_append] at h
      obtain ⟨hsorted, -, hnow⟩ := h
      obtain ⟨hlags, hreplies⟩ := ih hsorted
      rw [hreadings, Course.after_concat]
      cases x with
      | task x =>
          obtain ⟨hafter, hreply⟩ := x.perform_alike settings hlags hnow
          have hunswept : unswept (steps ++ [.task x]) = unswept steps ++ [.task x] := by
            simp [unswept, Step.isTask]
          rw [hunswept, Course.after_concat]
          refine ⟨hafter.mono (List.subset_append_left _ _), ?_⟩
          simp only [Course.step, hreplies, hreply]
      | sweep now =>
          have hunswept : unswept (steps ++ [.sweep now]) = unswept steps := by
            simp [unswept, Step.isTask]
          rw [hunswept]
          exact ⟨hlags.sweep now, hreplies⟩

/-- What there is to say about a course and the same course without its sweeps. -/
structure Agrees (steps : List Step) (lazy swept : Course) : Prop where
  /-- Every task returns the same. -/
  replies : swept.replies = lazy.replies
  /-- There are the same commitments of the same proposals. -/
  commitments : swept.engine.commitments = lazy.engine.commitments
  commitmentOf : swept.engine.commitmentOf = lazy.engine.commitmentOf
  /-- What has expired without the sweeps has expired with them. -/
  expired : ∀ id p, lazy.engine.proposals.find? id = some p → p.state = .expired →
    swept.engine.proposals.find? id = some p
  /-- What has expired with the sweeps only is overdue. -/
  overdue : ∀ id q, swept.engine.proposals.find? id = some q → q.state = .expired →
    lazy.engine.proposals.find? id = some q ∨
      ∃ p, lazy.engine.proposals.find? id = some p ∧ q = { p with state := .expired } ∧
        ∀ now, (∀ r ∈ readings steps, r ≤ now) → p.isOverdue now = true

/-- Under a clock that never goes back, tasks go as they would without the sweeps between them. -/
theorem sweeps_agree (settings : Config.ConsensusSettings) {steps : List Step}
    (h : (readings steps).Pairwise (· ≤ ·)) :
    Agrees steps (Course.after settings (unswept steps)) (Course.after settings steps) := by
  obtain ⟨hlags, hreplies⟩ := after_lags settings h
  refine ⟨hreplies, hlags.commitments, hlags.commitmentOf, ?_, ?_⟩
  · intro id p hp hexpired
    rcases hlags.proposals id with hsame | ⟨p', r, -, hp', hdue, -⟩
    · rw [hsame, hp]
    · rw [hp] at hp'
      obtain rfl := Option.some.inj hp'
      simp [Proposal.isOverdue, hexpired, ProposalState.isTerminal] at hdue
  · intro id q hq _
    rcases hlags.proposals id with hsame | ⟨p, r, hr, hp, hdue, hswept⟩
    · exact .inl (hsame ▸ hq)
    · rw [hq] at hswept
      exact .inr ⟨p, hp, Option.some.inj hswept, fun now hnow => isOverdue_mono hdue (hnow r hr)⟩

/-- A sweep comes before a vote on an overdue proposal and before its commit, and at the end, when
nobody asks for the other proposal any more. -/
def sweptTwice : List Step :=
  [.task (.propose ⟨⟨⟨7⟩⟩, "deploy", 1, some ⟨1000000000⟩, none⟩ ⟨1⟩ ⟨0⟩),
   .task (.propose ⟨⟨⟨7⟩⟩, "scale", 1, some ⟨5000000000⟩, none⟩ ⟨2⟩ ⟨0⟩),
   .task (.vote ⟨⟨1⟩⟩ ⟨⟨"v1"⟩, .approve, 1, "s"⟩ ⟨5⟩), .sweep ⟨1000000000⟩,
   .task (.vote ⟨⟨1⟩⟩ ⟨⟨"v2"⟩, .approve, 1, "s"⟩ ⟨1000000001⟩),
   .task (.commit ⟨⟨1⟩⟩ (some ⟨"agreement"⟩) none 0
      ⟨"open", fun _ => .ok ⟨"open", "", none⟩, fun _ _ => true⟩ ⟨3⟩ (some (.ok ⟨true, ""⟩))
      ⟨1000000002⟩ ⟨1000000003⟩),
   .task (.commitmentFor ⟨⟨1⟩⟩), .sweep ⟨5000000000⟩]

theorem sweeps_agree_sweptTwice :
    (readings sweptTwice).Pairwise (· ≤ ·) ∧
      (Course.after {} sweptTwice).replies = (Course.after {} (unswept sweptTwice)).replies ∧
      ∃ p, (Course.after {} (unswept sweptTwice)).engine.proposals.find? ⟨⟨2⟩⟩ = some p ∧
        p.state = .voting ∧ p.isOverdue ⟨5000000000⟩ = true ∧
        (Course.after {} sweptTwice).engine.proposals.find? ⟨⟨2⟩⟩ =
          some { p with state := .expired } := by
  have hsorted : (readings sweptTwice).Pairwise (· ≤ ·) := by decide
  have hbound : ∀ r ∈ readings sweptTwice, r ≤ (⟨5000000000⟩ : Instant) := by decide
  have hagree := sweeps_agree {} hsorted
  refine ⟨hsorted, hagree.replies, ?_⟩
  obtain ⟨q, hq, hexpired⟩ : ∃ q, (Course.after {} sweptTwice).engine.proposals.find?
      ⟨⟨2⟩⟩ = some q ∧ q.state = .expired := ⟨_, rfl, rfl⟩
  obtain ⟨p, hp, hvoting⟩ : ∃ p, (Course.after {} (unswept sweptTwice)).engine.proposals.find?
      ⟨⟨2⟩⟩ = some p ∧ p.state = .voting := ⟨_, rfl, rfl⟩
  rcases hagree.overdue ⟨⟨2⟩⟩ q hq hexpired with hsame | ⟨p', hp', rfl, hdue⟩
  · rw [hp] at hsame
    obtain rfl := Option.some.inj hsame
    rw [hvoting] at hexpired
    cases hexpired
  · rw [hp] at hp'
    obtain rfl := Option.some.inj hp'
    exact ⟨p, hp, hvoting, hdue _ hbound, hq⟩

end AgentGovernance.Consensus

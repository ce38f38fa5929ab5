import AgentGovernance.Proofs.Attestation
import AgentGovernance.Proofs.Consensus.Minutes
import AgentGovernance.Proofs.Consensus.Verdict

/-!
# Commitments that verify

A commitment is verified against the votes as they are stored now. It verifies in every later state:
its proof is what the proof system attested for its tally hash, and a committed proposal is left
alone, so the hash that is computed again is the one that was attested. The engine then has no
violation to publish, whoever asks for whatever commitment.

The proof system has to accept what it attests; nothing is asked of it beyond that, and attesting
may fail.
-/
namespace AgentGovernance.Consensus

variable {s t : Consensus} {proofs : ProofSystem} {a : Action} {es : List Event}

/-! ## What a stored commitment rests on -/

/-- The proposal of a commitment is committed and its votes still give the hash. -/
def Frozen (s : Consensus) (c : Commitment) : Prop :=
  ∃ p, s.proposals.find? c.proposal = some p ∧ p.state = .committed ∧ c.tallyHash = p.tallyHash

/-- Every commitment is kept under its id and rests on its proof and its proposal. -/
structure Vouched (proofs : ProofSystem) (s : Consensus) : Prop where
  id : ∀ k c, s.commitments.find? k = some c → c.id = k
  attested : ∀ k c, s.commitments.find? k = some c → AttestedBy proofs c
  frozen : ∀ k c, s.commitments.find? k = some c → Frozen s c

theorem Vouched.empty : Vouched proofs {} := by
  refine ⟨?_, ?_, ?_⟩ <;> intro _ _ h <;> cases h

/-! ## Verifying -/

/-- The report on a commitment with which all is well. -/
def soundReport (id : CommitmentId) : CommitmentReport where
  commitment := id
  valid := true
  tallyMatches := true
  proofValid := true
  reason := none

theorem report_eq_soundReport (haccepts : proofs.AcceptsOwn) {c : Commitment} {p : Proposal}
    (hattested : AttestedBy proofs c) (hhash : c.tallyHash = p.tallyHash) :
    report proofs c p = soundReport c.id := by
  have hproof : proofs.verify ⟨c.proposal.uuid.text, c.tallyHash⟩ c.proof = true :=
    haccepts _ _ hattested
  simp [report, soundReport, hproof, ← hhash]

theorem Vouched.verify_eq (hs : Vouched proofs s) (haccepts : proofs.AcceptsOwn)
    {k : CommitmentId} {c : Commitment} (hc : s.commitments.find? k = some c) :
    s.verify proofs k = .ok s (soundReport k) := by
  obtain ⟨p, hp, -, hhash⟩ := hs.frozen k c hc
  have hreport := report_eq_soundReport haccepts (hs.attested k c hc) hhash
  rw [hs.id k c hc] at hreport
  simp [verify, getCommitment, hc, hp, hreport, soundReport]

/-- Nothing is published for a commitment that is stored, nor for one that is not. -/
theorem Vouched.verify_published (hs : Vouched proofs s) (haccepts : proofs.AcceptsOwn)
    (k : CommitmentId) : (s.verify proofs k).published = [] := by
  cases hc : s.commitments.find? k with
  | none =>
      rw [verify, getCommitment, hc]
      rfl
  | some c =>
      rw [hs.verify_eq haccepts hc]
      rfl

/-! ## One action -/

theorem Completion.attested {id : ProposalId} {k : CommitmentId} {now : Instant}
    {o : Outcome Consensus Commitment} (h : Completion s proofs id k now o) {i : CommitmentId}
    {c : Commitment} (hc : o.state.commitments.find? i = some c) :
    s.commitments.find? i = some c ∨ AttestedBy proofs c := by
  cases h with
  | already | refuse | expire => exact .inl hc
  | commit _ _ _ hattested =>
      simp only [Outcome.ok, withCommitment, Table.find?_insert] at hc
      split at hc
      next =>
        obtain rfl := Option.some.inj hc
        exact .inr hattested
      next => exact .inl hc

/-- Whether a call that needs a proof system is given this one. -/
def Call.Under (proofs : ProofSystem) : Call → Prop
  | .act (.closeCommit _ _ used _ _) | .verify used _ => used = proofs
  | .act _ => True

/-- A commitment that an action makes is attested. -/
theorem Run.step_attested (settings : Config.ConsensusSettings) {r : Run} (hs : r.engine.Keyed)
    (hunder : (Call.act a).Under proofs) {k : CommitmentId} {c : Commitment}
    (hc : (r.step settings a).engine.commitments.find? k = some c) :
    r.engine.commitments.find? k = some c ∨ AttestedBy proofs c := by
  obtain ⟨es, hmove, -⟩ := r.step_move settings a hs
  rcases hmove.commitments_cases with ⟨hsame, -⟩ | ⟨p, d, ha, -⟩
  · exact .inl (hsame ▸ hc)
  · cases a with
    | closeCommit place judgement used fresh now =>
        obtain rfl : used = proofs := hunder
        simp only [step] at hc
        split at hc
        · exact .inl hc
        next call _ => exact (closeCommit_completion hs used fresh now call judgement).attested hc
    | propose | vote | get | tally | expireOverdue | openCommit | abandonCommit => cases ha

namespace Move

/-- Nothing happens to a committed proposal whose id is not drawn again. -/
theorem frozen (h : Move a s t es) {c : Commitment} (hc : Frozen s c)
    (hfresh : a.proposalId? ≠ some c.proposal) : Frozen t c := by
  obtain ⟨p, hp, hstate, hhash⟩ := hc
  have hterminal : p.state.isTerminal = true := by rw [hstate]; rfl
  obtain ⟨q, hq, hpq⟩ := h.find?_of_some hp hfresh
  obtain rfl := hpq.eq_of_isTerminal hterminal
  exact ⟨q, hq, hstate, hhash⟩

/-- A commitment after a move was there before, or its proposal has just been committed. -/
theorem commitments_find?_cases (h : Move a s t es) {k : CommitmentId} {c : Commitment}
    (hc : t.commitments.find? k = some c) :
    s.commitments.find? k = some c ∨ c.id = k ∧ Frozen t c := by
  rcases h.commitments_cases with ⟨hsame, -⟩ | ⟨p, d, -, -, -, hsupports, rfl⟩
  · exact .inl (hsame ▸ hc)
  · simp only [withCommitment, Table.find?_insert] at hc
    split at hc
    next hk =>
      obtain rfl := Option.some.inj hc
      refine .inr ⟨hk.symm, { p with state := .committed }, ?_, rfl, hsupports.hash⟩
      rw [withCommitment, hsupports.names, Table.find?_insert_self]
    next => exact .inl hc

theorem isSome_commitments (h : Move a s t es) {k : CommitmentId}
    (hk : (s.commitments.find? k).isSome = true) : (t.commitments.find? k).isSome = true := by
  rcases h.commitments_cases with ⟨hsame, -⟩ | ⟨p, d, -, -, -, -, rfl⟩
  · rwa [hsame]
  · simp only [withCommitment, Table.find?_insert]
    split
    · rfl
    · exact hk

theorem isConsensus_type (h : Move a s t es) : ∀ e ∈ es, isConsensus e.type = true := by
  cases h with
  | stay => exact List.forall_mem_nil _
  | propose | commit => exact List.forall_mem_singleton.mpr rfl
  | revise _ hr =>
      cases hr with
      | expire | vote => exact List.forall_mem_singleton.mpr rfl
      | reject => exact List.forall_mem_cons.mpr ⟨rfl, List.forall_mem_singleton.mpr rfl⟩
  | sweep now =>
      intro e he
      obtain ⟨p, -, rfl⟩ := List.mem_map.mp he
      rfl

end Move

theorem Vouched.act {settings : Config.ConsensusSettings} {r : Run}
    (hvouched : Vouched proofs r.engine) (hs : r.engine.Keyed)
    (hunder : (Call.act a).Under proofs)
    (hfresh : ∀ id p, r.engine.proposals.find? id = some p → a.proposalId? ≠ some id) :
    Vouched proofs (r.step settings a).engine := by
  obtain ⟨es, hmove, -⟩ := r.step_move settings a hs
  refine ⟨?_, ?_, ?_⟩ <;> intro k c hc
  · rcases hmove.commitments_find?_cases hc with hold | ⟨hid, -⟩
    · exact hvouched.id k c hold
    · exact hid
  · rcases r.step_attested settings hs hunder hc with hold | hnew
    · exact hvouched.attested k c hold
    · exact hnew
  · rcases hmove.commitments_find?_cases hc with hold | ⟨-, hfrozen⟩
    · obtain ⟨p, hp, -⟩ := hvouched.frozen k c hold
      exact hmove.frozen (hvouched.frozen k c hold) (hfresh c.proposal p hp)
    · exact hfrozen

/-! ## Runs -/

namespace Minutes

variable (settings : Config.ConsensusSettings)

/-- A call moves the tables as an action does; a verification leaves them alone. -/
theorem step_move {m : Minutes} (hs : m.run.engine.Keyed) (x : Call) :
    ∃ a es, Move a m.run.engine (m.step settings x).run.engine es := by
  cases x with
  | act a =>
      obtain ⟨es, hmove, -⟩ := m.run.step_move settings a hs
      exact ⟨a, es, hmove⟩
  | verify used id =>
      rw [step, Run.apply, verify_state]
      exact ⟨.abandonCommit 0, [], .stay⟩

theorem after_keyed (calls : List Call) : (after settings calls).run.engine.Keyed := by
  induction calls using List.reverseRecOn with
  | nil => exact keyed_empty
  | append_singleton calls x ih =>
      obtain ⟨a, es, hmove⟩ := step_move settings ih x
      rw [after_concat]
      exact hmove.keyed ih

/-- An id that has a commitment keeps one. -/
theorem isSome_commitments_append {calls : List Call} {k : CommitmentId}
    (hk : ((after settings calls).run.engine.commitments.find? k).isSome = true)
    (more : List Call) :
    ((after settings (calls ++ more)).run.engine.commitments.find? k).isSome = true := by
  induction more using List.reverseRecOn with
  | nil => rwa [List.append_nil]
  | append_singleton more x ih =>
      obtain ⟨a, es, hmove⟩ := step_move settings (after_keyed settings (calls ++ more)) x
      rw [← List.append_assoc, after_concat]
      exact hmove.isSome_commitments ih

end Minutes

/-- The ids of commitments that are given out: by a commit that ends well, and by both look-ups. -/
inductive Returned (r : Run) : CommitmentId → Prop
  | commit {x : Answer} {c : Commitment} : x ∈ r.answers → x.result = .ok c → Returned r c.id
  | byId {id : CommitmentId} {c : Commitment} :
      r.engine.getCommitment id = .ok c → Returned r c.id
  | byProposal {id : ProposalId} {c : Commitment} :
      r.engine.commitmentFor id = some c → Returned r c.id

/-- What holds between the calls of an engine under one proof system, when the ids in the list have
been drawn for its proposals. -/
structure Upheld (proofs : ProofSystem) (drawn : List ProposalId) (m : Minutes) : Prop where
  drawn : ∀ id p, m.run.engine.proposals.find? id = some p → id ∈ drawn
  vouched : Vouched proofs m.run.engine
  answered : ∀ x ∈ m.run.answers, ∀ c, x.result = .ok c →
    (m.run.engine.commitments.find? c.id).isSome = true
  silent : ∀ e ∈ m.run.published, e.type ≠ .auditIntegrityViolation

namespace Upheld

variable {drawn : List ProposalId} {m : Minutes} {settings : Config.ConsensusSettings}

theorem empty : Upheld proofs [] {} := by
  refine ⟨?_, .empty, ?_, ?_⟩
  · intro _ _ h
    cases h
  · intro _ h
    cases h
  · intro _ h
    cases h

theorem act (h : Upheld proofs drawn m) (hs : m.run.engine.Keyed)
    (hunder : (Call.act a).Under proofs) (hnew : ∀ id ∈ a.proposalId?, id ∉ drawn) :
    Upheld proofs (drawn ++ a.proposalId?.toList) (m.step settings (.act a)) := by
  obtain ⟨es, hmove, hpublished⟩ := m.run.step_move settings a hs
  have hfresh : ∀ id p, m.run.engine.proposals.find? id = some p → a.proposalId? ≠ some id :=
    fun id p hp ha => hnew id ha (h.drawn id p hp)
  have hvouched : Vouched proofs (m.run.step settings a).engine := h.vouched.act hs hunder hfresh
  refine ⟨?_, hvouched, ?_, ?_⟩
  · intro id q hq
    rcases hmove.find?_cases hq with ⟨p, hp, -⟩ | ⟨ha, -⟩
    · exact List.mem_append_left _ (h.drawn id p hp)
    · exact List.mem_append_right _ (Option.mem_toList.mpr ha)
  · intro x hx c hxc
    rcases Run.step_answers settings hs a hx hxc with hold | hfor
    · exact hmove.isSome_commitments (h.answered x hold c hxc)
    · obtain ⟨k, -, hc⟩ := Option.bind_eq_some_iff.mp hfor
      obtain rfl := hvouched.id k c hc
      exact Option.isSome_iff_exists.mpr ⟨c, hc⟩
  · intro e he
    rw [show (m.step settings (.act a)).run = m.run.step settings a from rfl, hpublished,
      List.mem_append] at he
    rcases he with he | he
    · exact h.silent e he
    · intro htype
      have hconsensus := hmove.isConsensus_type e he
      rw [htype] at hconsensus
      cases hconsensus

theorem verify (h : Upheld proofs drawn m) (haccepts : proofs.AcceptsOwn) (k : CommitmentId) :
    Upheld proofs drawn (m.step settings (.verify proofs k)) := by
  have hstep : (m.step settings (.verify proofs k)).run = m.run := by
    simp only [Minutes.step, Run.apply, verify_state, h.vouched.verify_published haccepts,
      List.append_nil]
  refine ⟨?_, ?_, ?_, ?_⟩ <;> rw [hstep]
  · exact h.drawn
  · exact h.vouched
  · exact h.answered
  · exact h.silent

theorem step (h : Upheld proofs drawn m) (hs : m.run.engine.Keyed)
    (haccepts : proofs.AcceptsOwn) {x : Call} (hunder : x.Under proofs)
    (hnew : ∀ id ∈ x.proposalId?, id ∉ drawn) :
    Upheld proofs (drawn ++ x.proposalId?.toList) (m.step settings x) := by
  cases x with
  | act a => exact h.act hs hunder hnew
  | verify used k =>
      obtain rfl : used = proofs := hunder
      rw [Call.proposalId?, Option.toList_none, List.append_nil]
      exact h.verify haccepts k

theorem isSome_of_returned (h : Upheld proofs drawn m) {id : CommitmentId}
    (hid : Returned m.run id) : (m.run.engine.commitments.find? id).isSome = true := by
  have hstored : ∀ k c, m.run.engine.commitments.find? k = some c →
      (m.run.engine.commitments.find? c.id).isSome = true := by
    intro k c hc
    rw [h.vouched.id k c hc, hc]
    rfl
  cases hid with
  | commit hx hxc => exact h.answered _ hx _ hxc
  | @byId id c hc =>
      rw [getCommitment] at hc
      split at hc
      next d hd =>
        cases hc
        exact hstored id c hd
      next => cases hc
  | @byProposal id c hc =>
      obtain ⟨k, -, hd⟩ := Option.bind_eq_some_iff.mp hc
      exact hstored k c hd

end Upheld

/-- No two proposals are given one id. -/
def DistinctProposals (calls : List Call) : Prop := (calls.filterMap Call.proposalId?).Nodup

namespace Minutes

variable (settings : Config.ConsensusSettings)

theorem after_upheld (haccepts : proofs.AcceptsOwn) {calls : List Call}
    (hunder : ∀ x ∈ calls, x.Under proofs) (h : DistinctProposals calls) :
    Upheld proofs (calls.filterMap Call.proposalId?) (after settings calls) := by
  induction calls using List.reverseRecOn with
  | nil => exact .empty
  | append_singleton calls x ih =>
      have hcalls := ih (fun y hy => hunder y (List.mem_append_left _ hy)) (nodup_draws_of_append h)
      have hids : (calls ++ [x]).filterMap Call.proposalId? =
          calls.filterMap Call.proposalId? ++ x.proposalId?.toList := by
        rw [List.filterMap_append]
        cases hx : x.proposalId? <;> simp [hx]
      rw [after_concat, hids]
      refine hcalls.step (after_keyed settings calls) haccepts (hunder x ?_) ?_
      · exact List.mem_append_right _ (List.mem_singleton_self x)
      · exact fun id hid => not_drawn_before h hid

/-- Under a proof system that accepts what it attests, and under a keyed code in particular, every
commitment whose id has been given out verifies in every later state, whatever has been called in
between, and the engine publishes no violation. -/
theorem returned_verifies
    (hproofs : proofs.AcceptsOwn ∨ ∃ key ≠ [], ProofSystem.hmac key = .ok proofs)
    {calls more : List Call} (hunder : ∀ x ∈ calls ++ more, x.Under proofs)
    (h : DistinctProposals (calls ++ more)) :
    (∀ id, Returned (after settings calls).run id →
      (after settings (calls ++ more)).run.engine.verify proofs id =
        .ok (after settings (calls ++ more)).run.engine
          { commitment := id, valid := true, tallyMatches := true, proofValid := true,
            reason := none }) ∧
      ∀ e ∈ (after settings (calls ++ more)).run.published, e.type ≠ .auditIntegrityViolation := by
  have haccepts : proofs.AcceptsOwn := by
    rcases hproofs with haccepts | ⟨key, -, hkey⟩
    · exact haccepts
    · exact ProofSystem.acceptsOwn_of_hmac hkey
  have hnow := after_upheld settings haccepts
    (fun x hx => hunder x (List.mem_append_left _ hx)) (nodup_draws_of_append h)
  have hlater := after_upheld settings haccepts hunder h
  refine ⟨?_, hlater.silent⟩
  intro id hid
  have hstored := isSome_commitments_append settings (hnow.isSome_of_returned hid) more
  obtain ⟨c, hc⟩ := Option.isSome_iff_exists.mp hstored
  exact hlater.vouched.verify_eq haccepts hc

/-- A proposal is committed while a vote comes between the two parts. -/
def committing (proofs : ProofSystem) : List Call :=
  [.act (.propose ⟨⟨⟨7⟩⟩, "deploy", 1, none, none⟩ ⟨1⟩ ⟨0⟩),
   .act (.vote ⟨⟨1⟩⟩ ⟨⟨"v1"⟩, .approve, 1, "s"⟩ ⟨5⟩),
   .act (.openCommit ⟨⟨1⟩⟩ (some ⟨"agreement"⟩) none 0 ⟨6⟩),
   .act (.vote ⟨⟨1⟩⟩ ⟨⟨"v2"⟩, .abstain, 3, "t"⟩ ⟨7⟩),
   .act (.closeCommit 0 (.ok ⟨true, ""⟩) proofs ⟨2⟩ ⟨8⟩)]

/-- A late rejection, a sweep, another commit, and verifications of what there is and is not. -/
def disturbing (proofs : ProofSystem) : List Call :=
  [.act (.vote ⟨⟨1⟩⟩ ⟨⟨"v1"⟩, .reject, 9, "s"⟩ ⟨9⟩), .act (.expireOverdue ⟨1000000000000⟩),
   .verify proofs ⟨⟨2⟩⟩, .act (.openCommit ⟨⟨1⟩⟩ none none 0 ⟨10⟩), .verify proofs ⟨⟨3⟩⟩]

theorem returned_verifies_disturbed :
    ∃ proofs, ProofSystem.hmac [107] = .ok proofs ∧
      (∀ x ∈ committing proofs ++ disturbing proofs, x.Under proofs) ∧
      DistinctProposals (committing proofs ++ disturbing proofs) ∧
      Returned (after {} (committing proofs)).run ⟨⟨2⟩⟩ ∧
      ((after {} (committing proofs ++ disturbing proofs)).run.engine.verify proofs
        ⟨⟨2⟩⟩).result = .ok (soundReport ⟨⟨2⟩⟩) ∧
      ∀ e ∈ (after {} (committing proofs ++ disturbing proofs)).run.published,
        e.type ≠ .auditIntegrityViolation := by
  obtain ⟨proofs, hkey⟩ : ∃ proofs, ProofSystem.hmac [107] = .ok proofs := ⟨_, rfl⟩
  have hunder : ∀ x ∈ committing proofs ++ disturbing proofs, x.Under proofs := by
    simp [committing, disturbing, Call.Under]
  have hdistinct : DistinctProposals (committing proofs ++ disturbing proofs) := by
    change [(⟨⟨1⟩⟩ : ProposalId)].Nodup
    decide
  have hreturned : Returned (after {} (committing proofs)).run ⟨⟨2⟩⟩ := by
    cases hkey
    exact @Returned.commit _ _ ⟨⟨⟨2⟩⟩, _, _, _, _, _⟩ (List.mem_singleton_self _) rfl
  obtain ⟨hverify, hsilent⟩ :=
    returned_verifies {} (.inr ⟨[107], by decide, hkey⟩) hunder hdistinct
  refine ⟨proofs, hkey, hunder, hdistinct, hreturned, ?_, hsilent⟩
  rw [hverify _ hreturned]
  rfl

end Minutes

end AgentGovernance.Consensus

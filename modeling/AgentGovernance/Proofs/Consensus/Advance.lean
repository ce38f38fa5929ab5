import AgentGovernance.Proofs.Consensus.Word
import AgentGovernance.Proofs.Table

/-!
# What a call adds to the events about each proposal

An overdue proposal may be found by a vote, a reading, either part of a commit or a sweep; whichever
comes first publishes that it has expired, and the others find it expired. So an `Advance` looks at
each stored proposal by itself: it makes one progress, and the events about it are those of the
progress.

Events name proposals by the texts of their ids. Where no two ids in use read alike, an event about
one proposal is about no other.
-/
namespace AgentGovernance.Consensus

variable {p q : Proposal} {es : List Event} {xs : List Counted}

/-! ## The events about a proposal -/

def isConsensus : EventType → Bool
  | .consensusProposed | .consensusVoted | .consensusCommitted | .consensusRejected
  | .consensusExpired => true
  | _ => false

/-- The events of consensus about a proposal, which they name by the text of its id. -/
def about (id : ProposalId) (es : List Event) : List Event :=
  es.filter fun e => isConsensus e.type && e.target = some id.uuid.text

def countedFor (id : ProposalId) (xs : List Counted) : List Counted :=
  xs.filter fun x => x.vote.proposal = id

section About

variable {id : ProposalId}

theorem about_eq_nil (h : ∀ e ∈ es, isConsensus e.type = true → e.target ≠ some id.uuid.text) :
    about id es = [] := by
  refine List.filter_eq_nil_iff.mpr ?_
  intro e he
  simpa using h e he

/-- Whether events are all about one proposal. -/
def AllAbout (id : ProposalId) (es : List Event) : Prop :=
  ∀ e ∈ es, isConsensus e.type = true ∧ e.target = some id.uuid.text

theorem AllAbout.about_self (h : AllAbout id es) : about id es = es := by
  refine List.filter_eq_self.mpr ?_
  intro e he
  simpa using h e he

theorem AllAbout.about_other (h : AllAbout id es) {jd : ProposalId}
    (hne : jd.uuid.text ≠ id.uuid.text) : about jd es = [] := by
  refine about_eq_nil ?_
  intro e he _ htarget
  rw [(h e he).2] at htarget
  exact hne (Option.some.inj htarget).symm

theorem allAbout_singleton {e : Event} (htype : isConsensus e.type = true)
    (htarget : e.target = some id.uuid.text) : AllAbout id [e] :=
  List.forall_mem_singleton.mpr ⟨htype, htarget⟩

end About

/-- No two stored proposals have ids that read alike. -/
def Apart (s : Consensus) : Prop :=
  ∀ id jd p q, s.proposals.find? id = some p → s.proposals.find? jd = some q →
    id.uuid.text = jd.uuid.text → id = jd

/-- What a call does: every stored proposal makes its progress, or it is new. -/
structure Advance (fresh : Option ProposalId) (s t : Consensus) (es : List Event)
    (xs : List Counted) : Prop where
  progress : ∀ id q, t.proposals.find? id = some q →
    (∃ p, s.proposals.find? id = some p ∧ Progress p q (about id es) (countedFor id xs)) ∨
      fresh = some id ∧ q.id = id ∧ q.state = .voting ∧ about id es = [proposedEvent q] ∧
        countedFor id xs = []
  stored : ∀ id p, s.proposals.find? id = some p → ∃ q, t.proposals.find? id = some q
  named : ∀ e ∈ es, isConsensus e.type = true →
    ∃ id q, t.proposals.find? id = some q ∧ e.target = some id.uuid.text
  counted : ∀ x ∈ xs, ∃ q, t.proposals.find? x.vote.proposal = some q

namespace Advance

variable {fresh : Option ProposalId} {s t : Consensus}

/-- Nothing is stored and nothing published about a proposal. -/
theorem stay (hes : ∀ e ∈ es, isConsensus e.type = false) : Advance fresh s s es [] := by
  refine ⟨?_, fun _ p hp => ⟨p, hp⟩, ?_, ?_⟩
  · intro id q hq
    have hnone : about id es = [] := about_eq_nil fun e he hconsensus => by
      rw [hes e he] at hconsensus
      cases hconsensus
    exact .inl ⟨q, hq, hnone ▸ .same⟩
  · intro e he hconsensus
    rw [hes e he] at hconsensus
    cases hconsensus
  · intro x hx
    cases hx

theorem idle : Advance fresh s s [] [] := stay fun _ he => by cases he

/-- One proposal is stored, with events about it and about no other. -/
theorem insert {id : ProposalId} (ht : t.proposals = s.proposals.insert id q)
    (hes : AllAbout id es) (hxs : ∀ x ∈ xs, x.vote.proposal = id)
    (hothers : ∀ jd r, s.proposals.find? jd = some r → jd ≠ id → jd.uuid.text ≠ id.uuid.text)
    (hself : (∃ p, s.proposals.find? id = some p ∧ Progress p q es xs) ∨
      fresh = some id ∧ q.id = id ∧ q.state = .voting ∧ es = [proposedEvent q] ∧ xs = []) :
    Advance fresh s t es xs := by
  refine ⟨?_, ?_, ?_, ?_⟩
  · intro jd r hr
    rw [ht, Table.find?_insert] at hr
    split at hr
    next hid =>
      obtain rfl := Option.some.inj hr
      subst hid
      have hvotes : countedFor jd xs = xs := List.filter_eq_self.mpr fun x hx => by
        simpa using hxs x hx
      rwa [hes.about_self, hvotes]
    next hid =>
      have hvotes : countedFor jd xs = [] := List.filter_eq_nil_iff.mpr fun x hx => by
        simpa [hxs x hx] using Ne.symm hid
      refine .inl ⟨r, hr, ?_⟩
      rw [hes.about_other (hothers jd r hr hid), hvotes]
      exact .same
  · intro jd r hr
    rw [ht, Table.find?_insert]
    split
    · exact ⟨q, rfl⟩
    · exact ⟨r, hr⟩
  · intro e he _
    exact ⟨id, q, by rw [ht, Table.find?_insert_self], (hes e he).2⟩
  · intro x hx
    exact ⟨q, by rw [hxs x hx, ht, Table.find?_insert_self]⟩

/-- A new proposal whose id reads unlike those in use. -/
theorem propose (hfresh : fresh = some p.id) (hvoting : p.state = .voting)
    (hapart : ∀ id q, s.proposals.find? id = some q → p.id.uuid.text ≠ id.uuid.text) :
    Advance fresh s (s.withProposal p) [proposedEvent p] [] := by
  refine insert rfl (allAbout_singleton rfl rfl) (fun x hx => by cases hx) ?_ ?_
  · exact fun id q hq _ => (hapart id q hq).symm
  · exact .inr ⟨hfresh, rfl, hvoting, rfl, rfl⟩

/-- One stored proposal makes progress. -/
theorem revise (hs : Apart s) (hp : s.proposals.find? p.id = some p)
    (ht : t.proposals = s.proposals.insert p.id q) (hes : AllAbout p.id es)
    (hxs : ∀ x ∈ xs, x.vote.proposal = p.id) (hprogress : Progress p q es xs) :
    Advance fresh s t es xs := by
  refine insert ht hes hxs ?_ (.inl ⟨p, hp, hprogress⟩)
  exact fun id r hr hid htext => hid (hs id p.id r p hr hp htext)

/-- An overdue proposal expires. -/
theorem expire (hs : Apart s) (hp : s.proposals.find? p.id = some p) {now : Instant}
    (hdue : p.isOverdue now = true) :
    Advance fresh s (s.withProposal { p with state := .expired })
      [expiredEvent { p with state := .expired }] [] := by
  exact revise hs hp rfl (allAbout_singleton rfl rfl) (fun x hx => by cases hx) (.expire hdue)

/-- What a sweep publishes about a stored proposal. -/
theorem about_expireOverdue (hs : Apart s) (hkeyed : s.Keyed) (now : Instant) {id : ProposalId}
    (hp : s.proposals.find? id = some p) :
    about id (s.expireOverdue now).published =
      if p.isOverdue now then [expiredEvent (p.expireIfDue now)] else [] := by
  let g := fun p : Proposal => expiredEvent (p.expireIfDue now)
  have htarget : ∀ q : Proposal, (g q).target = some q.id.uuid.text := fun q => by
    rw [← (successor_expireIfDue q now).id_eq]
    rfl
  have hfilter : about id (s.expireOverdue now).published = (s.proposals.values.filter fun q =>
      (isConsensus (g q).type && (g q).target = some id.uuid.text) && q.isOverdue now).map g := by
    rw [expireOverdue, Outcome.ok, about, List.filter_map, List.filter_filter]
    rfl
  rw [hfilter, Table.filter_values_of_find? hp]
  · have hname : (g p).target = some id.uuid.text := by rw [htarget, hkeyed id p hp]
    have hconsensus : isConsensus (g p).type = true := rfl
    rw [hname, hconsensus, decide_eq_true rfl, Bool.true_and, Bool.true_and]
    split <;> rfl
  · intro jd q hq hjd
    have hother : (g q).target ≠ some id.uuid.text := by
      rw [htarget, hkeyed jd q hq]
      exact fun htext => hjd (hs jd id q p hq hp (Option.some.inj htext))
    simp [hother]

theorem sweep (hs : Apart s) (hkeyed : s.Keyed) (now : Instant) :
    Advance fresh s (s.expireOverdue now).state (s.expireOverdue now).published [] := by
  have hfind : ∀ id, (s.expireOverdue now).state.proposals.find? id =
      (s.proposals.find? id).map (·.expireIfDue now) := by
    intro id
    rw [expireOverdue, Outcome.ok, Table.find?_map]
  refine ⟨?_, ?_, ?_, ?_⟩
  · intro id q hq
    rw [hfind] at hq
    obtain ⟨p, hp, rfl⟩ := Option.map_eq_some_iff.mp hq
    refine .inl ⟨p, hp, ?_⟩
    rw [about_expireOverdue hs hkeyed now hp, Proposal.expireIfDue]
    split
    next hdue => exact .expire hdue
    next => exact .same
  · intro id p hp
    exact ⟨_, by rw [hfind, hp, Option.map_some]⟩
  · intro e he _
    rw [expireOverdue, Outcome.ok] at he
    obtain ⟨p, hp, rfl⟩ := List.mem_map.mp he
    obtain ⟨id, hid⟩ := s.proposals.mem_values_iff.mp (List.mem_filter.mp hp).1
    refine ⟨id, p.expireIfDue now, by rw [hfind, hid, Option.map_some], ?_⟩
    rw [← hkeyed id p hid, ← (successor_expireIfDue p now).id_eq]
    rfl
  · intro x hx
    cases hx

end Advance

/-! ## Who counts votes -/

section Operations

variable (s : Consensus) (id : ProposalId) (now : Instant)

end Operations

theorem Completion.unvoted {s : Consensus} {proofs : ProofSystem} {id : ProposalId}
    {k : CommitmentId} {now : Instant} {o : Outcome Consensus Commitment}
    (h : Completion s proofs id k now o) :
    ∀ e ∈ o.published, e.type ≠ .consensusVoted := by
  cases h with
  | already | refuse => exact List.forall_mem_nil _
  | expire | commit => exact List.forall_mem_singleton.mpr nofun

/-- A vote counts if it is answered with a tally. -/
def countedIn (v : Vote) (o : Outcome Consensus Tally) : Option Counted :=
  match o.result with
  | .ok t => some ⟨v, t, o.published⟩
  | .error _ => none

/-- The vote that an action casts, if it counts. -/
def counted? (s : Consensus) : Action → Option Counted
  | .vote id b now => countedIn (b.cast id now) (s.vote id b now)
  | _ => none

end AgentGovernance.Consensus

import AgentGovernance.Proofs.Consensus.Move

/-!
# What is told about a proposal

The events about one proposal say that it was proposed, which votes on it counted, and how it ended,
in this order and nothing after it. A `Word` says how these events, the votes that counted and the
proposal as it is stored go together.

Whatever is done to a proposal, with the events about it, is a `Progress`, and a word goes on with
every progress.
-/
namespace AgentGovernance.Consensus

/-- A vote that counted, with the tally it was answered with and all that was published for it. -/
structure Counted where
  vote : Vote
  tally : Tally
  published : List Event

def Counted.event (x : Counted) : Event := votedEvent x.vote x.tally

/-- The last event about a proposal names its terminal state; until then there is none. -/
inductive Closing (p : Proposal) : List Event → Prop
  | none : p.state.isTerminal = false → Closing p []
  | committed {c : Commitment} : p.state = .committed → c.proposal = p.id →
      c.tallyHash = p.tallyHash → Closing p [committedEvent p c]
  | rejected : p.state = .rejected → Closing p [rejectedEvent p]
  | expired : p.state = .expired → Closing p [expiredEvent p]

/-- How the events about a proposal, the votes on it that counted and the proposal itself go
together. -/
structure Word (es : List Event) (xs : List Counted) (p : Proposal) : Prop where
  events : ∃ closing, Closing p closing ∧
    es = proposedEvent p :: (xs.map Counted.event ++ closing)
  /-- The last vote was answered with the tally as it is now. -/
  tally : ∀ x, xs.getLast? = some x → x.tally = p.tally
  /-- The last vote was the one that rejected the proposal, and it published just that. -/
  rejected : p.state = .rejected →
    ∃ x, xs.getLast? = some x ∧ x.published = [x.event, rejectedEvent p]

/-- What a call makes of a proposal, with the events about it and the votes on it that count. -/
inductive Progress (p : Proposal) : Proposal → List Event → List Counted → Prop
  | same : Progress p p [] []
  | expire {now : Instant} : p.isOverdue now = true →
      Progress p { p with state := .expired } [expiredEvent { p with state := .expired }] []
  | count {v : Vote} {now : Instant} {q : Proposal} {t : Tally} {es : List Event} :
      p.recordVote v now = .ok (q, t) →
      es = votedEvent v t :: (if q.state = .rejected then [rejectedEvent q] else []) →
      Progress p q es [⟨v, t, es⟩]
  | commit {c : Commitment} : Supports p c →
      Progress p { p with state := .committed } [committedEvent { p with state := .committed } c] []

variable {p q : Proposal} {es new : List Event} {xs more : List Counted}

theorem Closing.eq_nil (h : Closing p es) (hp : p.state.isTerminal = false) : es = [] := by
  cases h with
  | none => rfl
  | committed hstate | rejected hstate | expired hstate =>
      rw [hstate] at hp
      cases hp

theorem recordVote_keeps {v : Vote} {now : Instant} {t : Tally}
    (h : p.recordVote v now = .ok (q, t)) :
    q.id = p.id ∧ q.tally = t ∧ proposedEvent q = proposedEvent p ∧
      (q.state = .voting ∨ q.state = .rejected) := by
  obtain ⟨hvoting, -, -, rfl, rfl⟩ := recordVote_eq_ok h
  split
  · exact ⟨rfl, rfl, rfl, .inr rfl⟩
  · exact ⟨rfl, rfl, rfl, .inl hvoting⟩

theorem Progress.id_eq (h : Progress p q es xs) : q.id = p.id := by
  cases h with
  | same | expire | commit => rfl
  | count hrecord _ => exact (recordVote_keeps hrecord).1

/-- A word without a closing is closed. -/
theorem Word.close (h : Word es xs p) (hp : p.state.isTerminal = false) {closing : List Event}
    (hpropose : proposedEvent q = proposedEvent p) (htally : q.tally = p.tally)
    (hstate : q.state ≠ .rejected) (hclosing : Closing q closing) :
    Word (es ++ closing) xs q := by
  obtain ⟨_, hnone, rfl⟩ := h.events
  obtain rfl := hnone.eq_nil hp
  refine ⟨⟨closing, hclosing, ?_⟩, ?_, fun hrejected => absurd hrejected hstate⟩
  · rw [hpropose, List.append_nil, List.cons_append]
  · intro x hx
    rw [htally]
    exact h.tally x hx

/-- A word takes in a vote, which may close it. -/
theorem Word.count (h : Word es xs p) {v : Vote} {now : Instant} {t : Tally}
    (hrecord : p.recordVote v now = .ok (q, t))
    (hnew : new = votedEvent v t :: (if q.state = .rejected then [rejectedEvent q] else [])) :
    Word (es ++ new) (xs ++ [⟨v, t, new⟩]) q := by
  obtain ⟨-, htally, hpropose, hstate⟩ := recordVote_keeps hrecord
  have hopen : p.state.isTerminal = false := by rw [(recordVote_eq_ok hrecord).1]; rfl
  obtain ⟨_, hnone, rfl⟩ := h.events
  obtain rfl := hnone.eq_nil hopen
  refine ⟨?_, ?_, ?_⟩
  · rcases hstate with hstate | hstate
    · have hvoting : q.state ≠ .rejected := by rw [hstate]; decide
      refine ⟨[], .none (by rw [hstate]; rfl), ?_⟩
      simp [hnew, hvoting, hpropose, Counted.event]
    · refine ⟨[rejectedEvent q], .rejected hstate, ?_⟩
      simp [hnew, hstate, hpropose, Counted.event]
  · intro x hx
    rw [List.getLast?_concat] at hx
    cases hx
    exact htally.symm
  · intro hrejected
    rw [if_pos hrejected] at hnew
    exact ⟨_, List.getLast?_concat, hnew⟩

theorem Word.progress (h : Word es xs p) (hprogress : Progress p q new more) :
    Word (es ++ new) (xs ++ more) q := by
  cases hprogress with
  | same => rwa [List.append_nil, List.append_nil]
  | expire hdue =>
      have hopen : p.state.isTerminal = false := by
        simp only [Proposal.isOverdue, Bool.and_eq_true, Bool.not_eq_true'] at hdue
        exact hdue.1
      rw [List.append_nil]
      exact h.close hopen rfl rfl (by simp) (.expired rfl)
  | count hrecord hnew => exact h.count hrecord hnew
  | @commit c hc =>
      have hopen : p.state.isTerminal = false := by rw [hc.voting]; rfl
      rw [List.append_nil]
      exact h.close hopen rfl rfl (by simp) (.committed rfl hc.names hc.hash)

/-- The type of event that names a terminal state. -/
def closingType? : ProposalState → Option EventType
  | .committed => some .consensusCommitted
  | .rejected => some .consensusRejected
  | .expired => some .consensusExpired
  | .proposed | .voting => none

/-- What a word reads like. -/
theorem Word.types (h : Word es xs p) :
    es.map Event.type = .consensusProposed ::
      (List.replicate xs.length .consensusVoted ++ (closingType? p.state).toList) := by
  obtain ⟨closing, hclosing, rfl⟩ := h.events
  have hvotes : (xs.map Counted.event).map Event.type =
      List.replicate xs.length .consensusVoted := by
    rw [List.map_map, List.eq_replicate_iff]
    refine ⟨List.length_map _, ?_⟩
    intro type htype
    obtain ⟨x, -, rfl⟩ := List.mem_map.mp htype
    rfl
  have hend : closing.map Event.type = (closingType? p.state).toList := by
    cases hclosing with
    | none hopen => cases hstate : p.state <;> rw [hstate] at hopen <;> first | rfl | cases hopen
    | committed hstate | rejected hstate | expired hstate => rw [hstate]; rfl
  rw [List.map_cons, List.map_append, hvotes, hend]
  rfl

end AgentGovernance.Consensus

import AgentGovernance.Proofs.Consensus.Roll
import AgentGovernance.Proofs.Consensus.Thresholds

/-!
# Only last votes count

A sequence of votes that is accepted in full leaves of each voter the last vote, and of a voter who
is not in it the vote from before. It has rejected the proposal exactly if these votes reject it: a
sequence that does so on the way is refused from there on, and if later votes were to mend it, they
are never heard.

So sequences in which each voter's last vote says the same end alike, whatever was voted before and
in whatever order the voters came.
-/
namespace AgentGovernance.Proposal

/-- A vote and the time at which it comes in. -/
structure Submission where
  vote : Vote
  now : Instant

/-- Records votes in turn, as long as each of them is accepted. -/
def recordAll (p : Proposal) : List Submission → Except Failure Proposal
  | [] => .ok p
  | x :: xs =>
      match p.recordVote x.vote x.now with
      | .error f => .error f
      | .ok (q, _) => q.recordAll xs

/-- The last of some votes that a voter has cast. -/
def lastVote (voter : VoterId) (vs : List Vote) : Option Vote :=
  (vs.filter (·.voter = voter)).getLast?

variable {p q r : Proposal} {x : Submission} {xs ys : List Submission} {voter : VoterId}

/-! ## Last votes -/

theorem lastVote_cons (voter : VoterId) (v : Vote) (vs : List Vote) :
    lastVote voter (v :: vs) =
      (lastVote voter vs).or (if v.voter = voter then some v else none) := by
  rw [lastVote, lastVote, List.filter_cons]
  by_cases h : v.voter = voter
  · simp only [h, decide_true, if_true, List.getLast?_cons]
    cases (vs.filter (·.voter = voter)).getLast? <;> rfl
  · simp [h]

theorem voter_eq_of_lastVote {vs : List Vote} {v : Vote} (h : lastVote voter vs = some v) :
    v.voter = voter := by
  have hmem : v ∈ vs.filter (·.voter = voter) := List.mem_of_getLast? h
  simpa using (List.mem_filter.mp hmem).2

theorem lastVote_eq_none_iff {vs : List Vote} :
    lastVote voter vs = none ↔ ∀ v ∈ vs, v.voter ≠ voter := by
  rw [lastVote, List.getLast?_eq_none_iff, List.filter_eq_nil_iff]
  simp

theorem eq_nil_iff_lastVote {vs : List Vote} : vs = [] ↔ ∀ voter, lastVote voter vs = none := by
  constructor
  · rintro rfl voter
    rfl
  · intro h
    cases vs with
    | nil => rfl
    | cons v vs => exact absurd rfl (lastVote_eq_none_iff.mp (h v.voter) v List.mem_cons_self)

theorem map_stance_lastVote (voter : VoterId) (vs : List Vote) :
    (lastVote voter vs).map Vote.stance =
      ((vs.map Vote.stance).filter (·.voter = voter)).getLast? := by
  rw [lastVote, List.filter_map, List.getLast?_map]
  rfl

/-- The order of voters does not matter when each of them votes once, nor does the time. -/
theorem lastVote_perm {vs ws : List Vote} (hvoters : (vs.map (·.voter)).Nodup)
    (hperm : (vs.map Vote.stance).Perm (ws.map Vote.stance)) (voter : VoterId) :
    (lastVote voter vs).map Vote.stance = (lastVote voter ws).map Vote.stance := by
  have hfilter := hperm.filter (·.voter = voter)
  have hdistinct : ((vs.map Vote.stance).map (·.voter)).Nodup := by rwa [List.map_map]
  have honce : ((vs.map Vote.stance).filter (·.voter = voter)).length ≤ 1 := by
    have hsame : ((vs.map Vote.stance).filter (·.voter = voter)).map (·.voter) =
        List.replicate ((vs.map Vote.stance).filter (·.voter = voter)).length voter := by
      rw [List.eq_replicate_iff]
      refine ⟨List.length_map _, ?_⟩
      intro w hw
      obtain ⟨s, hs, rfl⟩ := List.mem_map.mp hw
      simpa using (List.mem_filter.mp hs).2
    rw [← List.nodup_replicate, ← hsame]
    exact hdistinct.sublist (List.filter_sublist.map _)
  rw [map_stance_lastVote, map_stance_lastVote]
  cases hvs : (vs.map Vote.stance).filter (·.voter = voter) with
  | nil =>
      rw [hvs] at hfilter
      rw [← hfilter.nil_eq]
  | cons s rest =>
      obtain rfl : rest = [] := by simpa [hvs] using honce
      rw [hvs] at hfilter
      rw [List.singleton_perm.mp hfilter]

/-! ## Recorded sequences -/

/-- What a sequence of votes that is accepted in full makes of a proposal. -/
structure Recorded (p : Proposal) (xs : List Submission) (q : Proposal) : Prop where
  find? : ∀ voter, q.votes.find? voter =
    (lastVote voter (xs.map (·.vote))).or (p.votes.find? voter)
  state : xs ≠ [] → q.state = if q.isVotedDown then .rejected else .voting
  unvoted : xs = [] → q = p
  /-- Nothing else changes. -/
  rest : q = { p with votes := q.votes, state := q.state }

theorem recordAll_cons_eq_ok :
    p.recordAll (x :: xs) = .ok r ↔
      ∃ q t, p.recordVote x.vote x.now = .ok (q, t) ∧ q.recordAll xs = .ok r := by
  rw [recordAll]
  cases p.recordVote x.vote x.now with
  | error f => simp
  | ok a =>
      obtain ⟨q, t⟩ := a
      simp

theorem Records.required_eq {v : Vote} {t : Tally} (h : Records p v q t) :
    q.required = p.required := by rw [h.rest]

/-- An accepted vote leaves the proposal rejected or open, as its votes have it. -/
theorem Records.state_eq {v : Vote} {t : Tally} (h : Records p v q t) :
    q.state = if q.isVotedDown then .rejected else .voting := by
  have hrejected : q.state = .rejected ↔ q.isVotedDown = true := by
    rw [h.rejected, q.isVotedDown_iff, h.required_eq]
  split
  next hdown => exact hrejected.mpr hdown
  next hdown => exact h.voting (hrejected.not.mpr hdown)

theorem recorded_of_recordAll (h : p.recordAll xs = .ok q) : Recorded p xs q := by
  induction xs generalizing p with
  | nil =>
      obtain rfl : p = q := Except.ok.inj h
      exact ⟨fun _ => rfl, fun hnil => absurd rfl hnil, fun _ => rfl, rfl⟩
  | cons x xs ih =>
      obtain ⟨o, t, hrecord, hrest⟩ := recordAll_cons_eq_ok.mp h
      have hfirst := records_of_recordVote hrecord
      have hlater := ih hrest
      refine ⟨?_, ?_, ?_, ?_⟩
      · intro voter
        rw [hlater.find?, hfirst.votes, Table.find?_insert, List.map_cons, lastVote_cons,
          Option.or_assoc]
        by_cases hvoter : voter = x.vote.voter
        · simp [hvoter]
        · simp [hvoter, Ne.symm hvoter]
      · intro _
        by_cases hxs : xs = []
        · rw [hlater.unvoted hxs]
          exact hfirst.state_eq
        · exact hlater.state hxs
      · exact fun hnil => absurd hnil (List.cons_ne_nil x xs)
      · rw [hlater.rest, hfirst.rest]

/-! ## Sequences that end alike -/

/-- Proposals of which the same is known in the end. -/
structure SameOutcome (q r : Proposal) : Prop where
  state : q.state = r.state
  tally : q.tally = r.tally
  tallyHash : q.tallyHash = r.tallyHash

/-- Sequences in which each voter's last vote says the same leave the same roll. -/
theorem Recorded.sameBallot (hq : Recorded p xs q) (hr : Recorded p ys r)
    (h : ∀ voter, (lastVote voter (xs.map (·.vote))).map Vote.stance =
      (lastVote voter (ys.map (·.vote))).map Vote.stance) : SameBallot q r := by
  have hroll : q.roll = r.roll := by
    apply roll_eq_of_find?
    intro voter
    rw [hq.find?, hr.find?, Option.map_or, Option.map_or, h]
  have hid : q.id = r.id := by
    rw [hq.rest, hr.rest]
  have hrequired : q.required = r.required := by
    rw [hq.rest, hr.rest]
  have hfloor : q.floor = r.floor := by
    rw [hq.rest, hr.rest]
  exact ⟨hid, hrequired, hfloor, hroll⟩

theorem Recorded.sameOutcome (hq : Recorded p xs q) (hr : Recorded p ys r)
    (h : ∀ voter, (lastVote voter (xs.map (·.vote))).map Vote.stance =
      (lastVote voter (ys.map (·.vote))).map Vote.stance) : SameOutcome q r := by
  have hballot := hq.sameBallot hr h
  have hnone : ∀ voter, lastVote voter (xs.map (·.vote)) = none ↔
      lastVote voter (ys.map (·.vote)) = none := by
    intro voter
    rw [← Option.map_eq_none_iff, h, Option.map_eq_none_iff]
  have hempty : xs.map (·.vote) = [] ↔ ys.map (·.vote) = [] := by
    rw [eq_nil_iff_lastVote, eq_nil_iff_lastVote, forall_congr' hnone]
  rw [List.map_eq_nil_iff, List.map_eq_nil_iff] at hempty
  refine ⟨?_, hballot.tally_eq, hballot.tallyHash_eq⟩
  by_cases hxs : xs = []
  · rw [hq.unvoted hxs, hr.unvoted (hempty.mp hxs)]
  · rw [hq.state hxs, hr.state (hempty.not.mp hxs), hballot.isVotedDown_eq]

/-- Two sequences of votes on a proposal that are accepted in full lead to one state, one tally and
one hash, if each voter's last vote says the same in both: in particular if they are the votes of
different voters in different orders, whenever they were cast. -/
theorem lastVotes_decide {p q r : Proposal} {xs ys : List Submission}
    (hq : p.recordAll xs = .ok q) (hr : p.recordAll ys = .ok r) :
    ((∀ voter, (lastVote voter (xs.map (·.vote))).map Vote.stance =
        (lastVote voter (ys.map (·.vote))).map Vote.stance) → SameOutcome q r) ∧
      ((xs.map (·.vote.voter)).Nodup →
        (xs.map (·.vote.stance)).Perm (ys.map (·.vote.stance)) → SameOutcome q r) := by
  have hfirst := recorded_of_recordAll hq
  have hsecond := recorded_of_recordAll hr
  refine ⟨hfirst.sameOutcome hsecond, ?_⟩
  intro hvoters hperm
  have hvotes : ((xs.map (·.vote)).map (·.voter)).Nodup := by rwa [List.map_map]
  have hstances : ((xs.map (·.vote)).map Vote.stance).Perm ((ys.map (·.vote)).map Vote.stance) := by
    rwa [List.map_map, List.map_map]
  exact hfirst.sameOutcome hsecond (lastVote_perm hvotes hstances)

/-- A proposal that a rejecting weight of 3 rejects. -/
def contested : Proposal :=
  { Proposal.new ⟨⟨1⟩⟩ ⟨⟨7⟩⟩ "deploy" 3 0 ⟨0⟩ ⟨60⟩ with state := .voting }

/-- One voter approves first, and rejects the proposal after the other has voted. -/
def wavering : List Submission :=
  [⟨⟨⟨"v1"⟩, ⟨⟨1⟩⟩, .approve, 4, "a", ⟨1⟩⟩, ⟨1⟩⟩, ⟨⟨⟨"v2"⟩, ⟨⟨1⟩⟩, .reject, 1, "s", ⟨2⟩⟩, ⟨2⟩⟩,
   ⟨⟨⟨"v1"⟩, ⟨⟨1⟩⟩, .reject, 2, "b", ⟨3⟩⟩, ⟨3⟩⟩]

/-- The same last votes in the other order and at other times, with another change of mind. -/
def delayed : List Submission :=
  [⟨⟨⟨"v1"⟩, ⟨⟨1⟩⟩, .reject, 2, "b", ⟨9⟩⟩, ⟨9⟩⟩, ⟨⟨⟨"v2"⟩, ⟨⟨1⟩⟩, .abstain, 8, "t", ⟨5⟩⟩, ⟨8⟩⟩,
   ⟨⟨⟨"v2"⟩, ⟨⟨1⟩⟩, .reject, 1, "s", ⟨7⟩⟩, ⟨7⟩⟩]

theorem lastVotes_decide_wavering :
    ∃ q r, contested.recordAll wavering = .ok q ∧ contested.recordAll delayed = .ok r ∧
      (∀ voter, (lastVote voter (wavering.map (·.vote))).map Vote.stance =
        (lastVote voter (delayed.map (·.vote))).map Vote.stance) ∧
      q.state = .rejected ∧ SameOutcome q r := by
  have hlast : ∀ voter, (lastVote voter (wavering.map (·.vote))).map Vote.stance =
      (lastVote voter (delayed.map (·.vote))).map Vote.stance := by
    intro voter
    by_cases hfirst : (⟨"v1"⟩ : VoterId) = voter
    · subst hfirst
      decide
    · by_cases hsecond : (⟨"v2"⟩ : VoterId) = voter
      · subst hsecond
        decide
      · simp [lastVote, wavering, delayed, hfirst, hsecond]
  obtain ⟨q, hq, hrejected⟩ :
      ∃ q, contested.recordAll wavering = .ok q ∧ q.state = .rejected := ⟨_, rfl, rfl⟩
  obtain ⟨r, hr⟩ : ∃ r, contested.recordAll delayed = .ok r := ⟨_, rfl⟩
  exact ⟨q, r, hq, hr, hlast, hrejected, (lastVotes_decide hq hr).1 hlast⟩

end AgentGovernance.Proposal

import AgentGovernance.Proofs.Consensus.LastVotes
import AgentGovernance.Proofs.Framing
import AgentGovernance.Proofs.Identity

/-!
# What a tally hash binds

The id and the thresholds of a proposal and four fields for each vote are hashed as one list of
fields. Every field stands behind its length and every vote has the same number of fields, so
however voters choose their names and signatures, the bytes that are hashed determine the whole
roll. Two proposals with one tally hash therefore agree in the id, the thresholds and the roll, or
what was hashed for them is a collision.
-/
namespace AgentGovernance

theorem VoteDecision.name_injective {c d : VoteDecision} (h : c.name = d.name) : c = d := by
  cases c <;> cases d <;> simp [name] at h ⊢

theorem Bytes.bigEndian_word_injective {v w : UInt64}
    (h : bigEndian 8 v.toNat = bigEndian 8 w.toNat) : v = w := by
  have hlimit : 2 ^ 64 = 256 ^ 8 := by decide
  exact UInt64.toNat_inj.mp (bigEndian_injective (hlimit ▸ v.toNat_lt) (hlimit ▸ w.toNat_lt) h)

namespace Stance

/-- The texts of a vote fit their frames. -/
structure Fits (s : Stance) : Prop where
  voter : (Bytes.ofString s.voter.name).length < 2 ^ 64
  signature : (Bytes.ofString s.signature).length < 2 ^ 64

theorem Fits.length_lt {s : Stance} (h : s.Fits) : ∀ field ∈ s.fields, field.length < 2 ^ 64 := by
  have hdecision : (Bytes.ofString s.decision.name).length < 2 ^ 64 := by
    cases s.decision <;> decide +kernel
  have hweight : (Bytes.bigEndian 8 s.weight.toNat).length < 2 ^ 64 := by
    rw [Bytes.length_bigEndian]
    decide
  simp only [fields, List.forall_mem_cons]
  exact ⟨h.voter, hdecision, hweight, h.signature, List.forall_mem_nil _⟩

theorem fields_injective {s t : Stance} (h : s.fields = t.fields) : s = t := by
  simp only [fields, List.cons.injEq, and_true] at h
  obtain ⟨hvoter, hdecision, hweight, hsignature⟩ := h
  have hname : s.voter.name = t.voter.name := Bytes.ofString_injective hvoter
  have hd := VoteDecision.name_injective (Bytes.ofString_injective hdecision)
  have hw := Bytes.bigEndian_word_injective hweight
  have hs := Bytes.ofString_injective hsignature
  obtain ⟨⟨_⟩, _, _, _⟩ := s
  obtain ⟨⟨_⟩, _, _, _⟩ := t
  simp_all

/-- Votes have equally many fields, so none of them begins inside another. -/
theorem flatMap_fields_injective {ss ts : List Stance} (h : ss.flatMap fields = ts.flatMap fields) :
    ss = ts := by
  induction ss generalizing ts with
  | nil =>
      cases ts with
      | nil => rfl
      | cons t ts => cases h
  | cons s ss ih =>
      cases ts with
      | nil => cases h
      | cons t ts =>
          rw [List.flatMap_cons, List.flatMap_cons] at h
          obtain ⟨hfirst, hrest⟩ := List.append_inj h rfl
          rw [fields_injective hfirst, ih hrest]

end Stance

namespace Proposal

variable {p q : Proposal} {voter : VoterId}

/-- What a proposal can consist of: an id of 128 bits, and votes whose texts fit their frames. -/
structure IsProper (p : Proposal) : Prop where
  id : p.id.uuid.number < 2 ^ 128
  fits : ∀ s ∈ p.roll, s.Fits

theorem IsProper.length_lt (h : p.IsProper) : ∀ field ∈ p.hashFields, field.length < 2 ^ 64 := by
  intro field hfield
  simp only [hashFields, List.mem_cons, List.mem_flatMap] at hfield
  rcases hfield with rfl | rfl | rfl | ⟨s, hs, hfield⟩
  · rw [Uuid.length_text]
    decide
  · rw [Bytes.length_bigEndian]
    decide
  · rw [Bytes.length_bigEndian]
    decide
  · exact (h.fits s hs).length_lt field hfield

theorem IsProper.sameBallot_of_hashInput_eq (hp : p.IsProper) (hq : q.IsProper)
    (h : p.hashInput = q.hashInput) : SameBallot p q := by
  have hfields := ContentHash.frames_injective hp.length_lt hq.length_lt h
  simp only [hashFields, List.cons.injEq] at hfields
  obtain ⟨hid, hrequired, hfloor, hroll⟩ := hfields
  have huuid := Uuid.text_injective hp.id hq.id (Bytes.ofString_injective hid)
  exact {
    id := (ProposalId.mk.injEq _ _).mpr huuid
    required := Bytes.bigEndian_word_injective hrequired
    floor := Bytes.bigEndian_word_injective hfloor
    roll := Stance.flatMap_fields_injective hroll }

/-- What is hashed for two proposals differs and has one digest. -/
def Collides (p q : Proposal) : Prop :=
  p.hashInput ≠ q.hashInput ∧ Sha2.sha256 p.hashInput = Sha2.sha256 q.hashInput

theorem tallyHash_eq_iff (hp : p.IsProper) (hq : q.IsProper) :
    p.tallyHash = q.tallyHash ↔ SameBallot p q ∨ Collides p q := by
  constructor
  · intro h
    rw [tallyHash_eq, tallyHash_eq, ContentHash.of_eq_iff] at h
    exact h.imp_left (hp.sameBallot_of_hashInput_eq hq)
  · intro h
    rcases h with hsame | hcollides
    · exact hsame.tallyHash_eq
    · rw [tallyHash_eq, tallyHash_eq]
      exact ContentHash.of_eq_iff.mpr (.inr hcollides)

/-! ## Votes that were recorded -/

/-- The votes have come by being recorded, one after the other, where there were none. -/
def Polled (p : Proposal) : Prop :=
  ∃ (start : Proposal) (xs : List Submission) (q : Proposal),
    start.votes = ∅ ∧ start.recordAll xs = .ok q ∧ p.votes = q.votes

/-- Every vote is kept under its voter. -/
theorem Polled.voter_eq (h : p.Polled) {v : Vote} (hv : p.votes.find? voter = some v) :
    v.voter = voter := by
  obtain ⟨start, xs, q, hnone, hrecord, hvotes⟩ := h
  rw [hvotes, (recorded_of_recordAll hrecord).find?, hnone] at hv
  have hlast : lastVote voter (xs.map (·.vote)) = some v := by
    rwa [show (∅ : Table VoterId Vote).find? voter = none from rfl, Option.or_none] at hv
  exact voter_eq_of_lastVote hlast

/-- A voter stands on the roll with what the vote that is kept says. -/
theorem Polled.find?_eq_some_iff (h : p.Polled) {s : Stance} :
    (p.votes.find? voter).map Vote.stance = some s ↔ s ∈ p.roll ∧ s.voter = voter := by
  rw [Option.map_eq_some_iff, roll, List.mem_map]
  constructor
  · rintro ⟨v, hv, rfl⟩
    exact ⟨⟨v, p.votes.mem_values_iff.mpr ⟨voter, hv⟩, rfl⟩, h.voter_eq hv⟩
  · rintro ⟨⟨v, hv, rfl⟩, hvoter⟩
    obtain ⟨k, hk⟩ := p.votes.mem_values_iff.mp hv
    obtain rfl : k = voter := (h.voter_eq hk).symm.trans hvoter
    exact ⟨v, hk, rfl⟩

theorem SameBallot.find?_eq (h : SameBallot p q) (hp : p.Polled) (hq : q.Polled)
    (voter : VoterId) :
    (p.votes.find? voter).map Vote.stance = (q.votes.find? voter).map Vote.stance := by
  rw [Option.ext_iff]
  intro s
  rw [hp.find?_eq_some_iff, hq.find?_eq_some_iff, h.roll]

/-- Two proposals whose votes were recorded have one tally hash exactly if they have one id, the
same thresholds and the same roll, or else what was hashed for them is a collision. So a vote that
is added, dropped or altered changes the hash, unless it shows a collision. -/
theorem tallyHash_binds (hp : p.IsProper) (hq : q.IsProper) (hpolled : p.Polled)
    (hpolled' : q.Polled) :
    (p.tallyHash = q.tallyHash ↔
      (p.id = q.id ∧ p.required = q.required ∧ p.floor = q.floor ∧ p.roll = q.roll) ∨
        Collides p q) ∧
    ∀ voter, (p.votes.find? voter).map Vote.stance ≠ (q.votes.find? voter).map Vote.stance →
      p.tallyHash ≠ q.tallyHash ∨ Collides p q := by
  have hiff := tallyHash_eq_iff hp hq
  constructor
  · rw [hiff]
    refine or_congr_left ⟨?_, ?_⟩
    · exact fun h => ⟨h.id, h.required, h.floor, h.roll⟩
    · exact fun ⟨hid, hrequired, hfloor, hroll⟩ => ⟨hid, hrequired, hfloor, hroll⟩
  · intro voter hdiffer
    by_cases hhash : p.tallyHash = q.tallyHash
    · rcases hiff.mp hhash with hsame | hcollides
      · exact absurd (hsame.find?_eq hpolled hpolled' voter) hdiffer
      · exact .inr hcollides
    · exact .inl hhash

/-- One approving vote, whose name and signature are cut in two places out of one text. -/
def approvedBy (voter signature : String) : Proposal :=
  contested.withVote ⟨⟨voter⟩, ⟨⟨1⟩⟩, .approve, 1, signature, ⟨1⟩⟩

theorem polled_approvedBy (voter signature : String) : (approvedBy voter signature).Polled :=
  ⟨contested, [⟨⟨⟨voter⟩, ⟨⟨1⟩⟩, .approve, 1, signature, ⟨1⟩⟩, ⟨1⟩⟩], _, rfl, rfl, rfl⟩

theorem tallyHash_binds_regrouped :
    (approvedBy "v1" "2s").IsProper ∧ (approvedBy "v12" "s").IsProper ∧
      (approvedBy "v1" "2s").Polled ∧ (approvedBy "v12" "s").Polled ∧
      ((approvedBy "v1" "2s").tallyHash ≠ (approvedBy "v12" "s").tallyHash ∨
        (approvedBy "v1" "2s").Collides (approvedBy "v12" "s")) := by
  have hfirst : (approvedBy "v1" "2s").IsProper :=
    ⟨by decide, List.forall_mem_singleton.mpr ⟨by decide +kernel, by decide +kernel⟩⟩
  have hsecond : (approvedBy "v12" "s").IsProper :=
    ⟨by decide, List.forall_mem_singleton.mpr ⟨by decide +kernel, by decide +kernel⟩⟩
  have hpolled := polled_approvedBy "v1" "2s"
  have hpolled' := polled_approvedBy "v12" "s"
  refine ⟨hfirst, hsecond, hpolled, hpolled', ?_⟩
  exact (tallyHash_binds hfirst hsecond hpolled hpolled').2 ⟨"v1"⟩ (by decide)

end Proposal

end AgentGovernance

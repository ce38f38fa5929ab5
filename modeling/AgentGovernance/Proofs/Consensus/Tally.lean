import AgentGovernance.Proposal
import Mathlib.Algebra.BigOperators.Group.List.Basic
import Mathlib.Algebra.GroupWithZero.Nat
import Mathlib.Data.List.Basic

/-!
# Tallies and exact weights

The weights of a tally are words and stop at the largest word. The sums below are natural numbers.
A tallied weight is the exact one or the largest word, whichever is smaller, and since the two
thresholds of a proposal are words as well, every comparison with a threshold comes out as it would
for the exact weights.
-/
namespace AgentGovernance.Proposal

/-- The largest word, at which sums of weights stop. -/
def maxWeight : Nat := 2 ^ 64 - 1

/-- The sum of the weights of the votes with one decision. -/
def exactWeight (p : Proposal) (decision : VoteDecision) : Nat :=
  ((p.votes.values.filter (·.decision = decision)).map (·.weight.toNat)).sum

/-- The sum of the weights of all votes. -/
def exactParticipation (p : Proposal) : Nat := (p.votes.values.map (·.weight.toNat)).sum

theorem toNat_le_maxWeight (w : UInt64) : w.toNat ≤ maxWeight := by
  have h := w.toNat_lt
  simp only [maxWeight]
  omega

theorem toNat_addWeight (a b : UInt64) :
    (addWeight a b).toNat = min (a.toNat + b.toNat) maxWeight := by
  have h : min (a.toNat + b.toNat) ((1 <<< 64) - 1) < 2 ^ 64 := by omega
  rw [addWeight, UInt64.toNat_ofNat_of_lt' h]
  rfl

theorem toNat_foldl_addWeight (vs : List Vote) (start : UInt64) :
    (vs.foldl (fun sum v => addWeight sum v.weight) start).toNat =
      min (start.toNat + (vs.map (·.weight.toNat)).sum) maxWeight := by
  induction vs generalizing start with
  | nil =>
      have h := toNat_le_maxWeight start
      simp only [List.foldl_nil, List.map_nil, List.sum_nil]
      omega
  | cons v vs ih =>
      rw [List.foldl_cons, ih, toNat_addWeight, List.map_cons, List.sum_cons]
      omega

theorem toNat_weightOf (p : Proposal) (decision : VoteDecision) :
    (p.weightOf decision).toNat = min (p.exactWeight decision) maxWeight := by
  rw [weightOf, toNat_foldl_addWeight]
  simp [exactWeight]

theorem exactParticipation_eq (p : Proposal) :
    p.exactParticipation =
      p.exactWeight .approve + p.exactWeight .reject + p.exactWeight .abstain := by
  unfold exactParticipation exactWeight
  induction p.votes.values with
  | nil => rfl
  | cons v vs ih =>
      simp only [List.map_cons, List.sum_cons, ih]
      cases h : v.decision <;> simp [h] <;> omega

theorem toNat_participation (p : Proposal) :
    p.tally.participation.toNat = min p.exactParticipation maxWeight := by
  change (addWeight (addWeight (p.weightOf .approve) (p.weightOf .reject))
    (p.weightOf .abstain)).toNat = _
  rw [toNat_addWeight, toNat_addWeight, toNat_weightOf, toNat_weightOf, toNat_weightOf,
    exactParticipation_eq]
  omega

/-- A word is below a sum exactly when it is below the sum that stops. -/
theorem le_min_maxWeight (w : UInt64) (n : Nat) : w.toNat ≤ min n maxWeight ↔ w.toNat ≤ n := by
  have h := toNat_le_maxWeight w
  omega

theorem le_weightOf_iff (p : Proposal) (decision : VoteDecision) (w : UInt64) :
    w ≤ p.weightOf decision ↔ w.toNat ≤ p.exactWeight decision := by
  rw [UInt64.le_iff_toNat_le, toNat_weightOf, le_min_maxWeight]

theorem quorumReached_iff (p : Proposal) :
    p.tally.quorumReached = true ↔
      p.required.toNat ≤ p.exactWeight .approve ∧ p.floor.toNat ≤ p.exactParticipation := by
  have h : p.floor ≤ p.tally.participation ↔ p.floor.toNat ≤ p.exactParticipation := by
    rw [UInt64.le_iff_toNat_le, toNat_participation, le_min_maxWeight]
  rw [← le_weightOf_iff, ← h]
  simp [tally]

theorem quorumReached_eq_false_iff (p : Proposal) :
    p.tally.quorumReached = false ↔
      p.exactWeight .approve < p.required.toNat ∨ p.exactParticipation < p.floor.toNat := by
  rw [Bool.eq_false_iff, Ne, p.quorumReached_iff]
  omega

theorem approve_lt_required_iff (p : Proposal) :
    p.tally.approve < p.required ↔ p.exactWeight .approve < p.required.toNat := by
  rw [← UInt64.not_le, ← Nat.not_le]
  exact not_congr (p.le_weightOf_iff .approve p.required)

theorem isVotedDown_iff (p : Proposal) :
    p.isVotedDown = true ↔ 0 < p.required.toNat ∧ p.required.toNat ≤ p.exactWeight .reject := by
  rw [← le_weightOf_iff]
  simp [isVotedDown, UInt64.lt_iff_toNat_lt]

end AgentGovernance.Proposal

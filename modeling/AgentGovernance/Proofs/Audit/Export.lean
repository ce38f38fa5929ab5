import AgentGovernance.Proofs.Audit.Recording
import AgentGovernance.Proofs.Trace.Replaying

/-!
# Exported segments

Stamps never decrease along the chain, so the entries of a span of time are neighbours: those that
are not too early are its last ones, and of these the ones that are not too late come first. What
an engine exports for a span is this segment, and it replays on its own up to the hash of its last
entry; if the span leaves nothing out, that is the hash of the head.
-/
namespace AgentGovernance

section Spans

variable {α : Type} {keep : α → Bool}

/-- What is kept of a list is its end, when nothing is dropped behind what is kept. -/
theorem filter_suffix_of_pairwise {l : List α}
    (h : l.Pairwise fun a b => keep a = true → keep b = true) : l.filter keep <:+ l := by
  induction l with
  | nil => exact List.suffix_refl []
  | cons a l ih =>
      obtain ⟨hbehind, hrest⟩ := List.pairwise_cons.mp h
      by_cases ha : keep a = true
      · have hall : ∀ b ∈ a :: l, keep b = true := by
          intro b hb
          rcases List.mem_cons.mp hb with rfl | hb
          · exact ha
          · exact hbehind b hb ha
        exact ⟨[], List.filter_eq_self.mpr hall⟩
      · rw [List.filter_cons_of_neg ha]
        exact (ih hrest).trans (List.suffix_cons a l)

/-- What is kept of a list is its beginning, when nothing is kept behind what is dropped. -/
theorem filter_prefix_of_pairwise {l : List α}
    (h : l.Pairwise fun a b => keep b = true → keep a = true) : l.filter keep <+: l := by
  induction l with
  | nil => exact List.prefix_refl []
  | cons a l ih =>
      obtain ⟨hbehind, hrest⟩ := List.pairwise_cons.mp h
      by_cases ha : keep a = true
      · rw [List.filter_cons_of_pos ha]
        exact (List.prefix_cons_inj a).mpr (ih hrest)
      · have hnone : ∀ b ∈ a :: l, ¬keep b = true := by
          intro b hb hkept
          rcases List.mem_cons.mp hb with rfl | hb
          · exact ha hkept
          · exact ha (hbehind b hb hkept)
        rw [List.filter_eq_nil_iff.mpr hnone]
        exact List.nil_prefix

end Spans

namespace Trace

theorem TimeRange.contains_iff {range : TimeRange} {t : Instant} :
    range.contains t = true ↔ range.start ≤ t ∧ t < range.stop := by
  rw [TimeRange.contains, Bool.and_eq_true, decide_eq_true_eq, decide_eq_true_eq]

/-- The entries of a span of time are neighbours. -/
theorem filter_contains_infix {es : List Entry}
    (h : es.Pairwise fun d e => d.timestamp ≤ e.timestamp) (range : TimeRange) :
    es.filter (fun e => range.contains e.timestamp) <:+: es := by
  have hsplit : es.filter (fun e => range.contains e.timestamp) =
      (es.filter fun e => range.start ≤ e.timestamp).filter fun e => e.timestamp < range.stop := by
    rw [List.filter_filter]
    refine List.filter_congr fun e _ => ?_
    rw [TimeRange.contains, Bool.and_comm]
  have hlate : (es.filter fun e => range.start ≤ e.timestamp) <:+ es := by
    refine filter_suffix_of_pairwise (h.imp ?_)
    intro d e hde hd
    rw [decide_eq_true_eq] at hd ⊢
    exact Int.le_trans hd hde
  have hearly : ((es.filter fun e => range.start ≤ e.timestamp).filter fun e =>
      e.timestamp < range.stop) <+: es.filter fun e => range.start ≤ e.timestamp := by
    refine filter_prefix_of_pairwise ((h.filter _).imp ?_)
    intro d e hde he
    rw [decide_eq_true_eq] at he ⊢
    exact Int.lt_of_le_of_lt hde he
  rw [hsplit]
  exact hearly.isInfix.trans hlate.isInfix

end Trace

namespace Audit

open Trace

theorem Engine.Tracks.exported_eq {σ : Type} [Store σ] {a : Engine σ} {es : List Entry}
    (h : a.Tracks es) (hshows : Shows a.store es) (range : TimeRange) :
    a.exported range = .ok (es.filter fun e => range.contains e.timestamp) := by
  have hsize : a.size = es.length := by rw [Engine.size, h.head]
  unfold Engine.exported
  rw [hsize]
  split
  next hempty =>
    rw [List.eq_nil_of_length_eq_zero hempty]
    rfl
  next =>
    rw [hshows.range, List.take_length]
    rfl

/-- After a run, the export for a span of time has exactly the stored entries that are stamped
within it, in the order of the chain. Their ids count on, they are linked, and to genesis if they set
out with entry 1. They replay on their own up to the hash of the last one, however sums are computed,
while there are words behind their ids. For a span that leaves no entry out that is the hash of the
head. -/
theorem run_exported {actions : List Action} {store : Backend} (h : Fresh actions store)
    (interval : Nat) (range : TimeRange) :
    ∃ a segment, run store interval actions = .ok a ∧ Shows a.store (recorded actions) ∧
      a.exported range = .ok segment ∧
      segment = (recorded actions).filter
        (fun e => range.start ≤ e.timestamp ∧ e.timestamp < range.stop) ∧
      segment <:+: recorded actions ∧
      (∃ first previous, segment.map (·.id) = List.range' first segment.length ∧
        Linked first previous segment ∧ (first = 1 → previous = .genesis)) ∧
      ((∀ e ∈ segment, e.id < 2 ^ 64 - 1) → ∀ sums,
        replayWith sums segment = some (.ok (segment.getLast?.elim .genesis (·.hash)))) ∧
      ((∀ e ∈ recorded actions, range.start ≤ e.timestamp ∧ e.timestamp < range.stop) →
        segment.getLast?.elim .genesis (·.hash) = a.head.hash) := by
  obtain ⟨a, hrun, hshows, htracks⟩ := h.run interval
  have hneighbours := filter_contains_infix (recorded_monotone actions) range
  obtain ⟨first, previous, hlinked, hfirst⟩ := htracks.linked.of_infix hneighbours
  refine ⟨a, _, hrun, hshows, htracks.exported_eq hshows range, ?_, hneighbours,
    ⟨first, previous, hlinked.map_id, hlinked, hfirst⟩, hlinked.replayWith_eq hfirst, ?_⟩
  · refine List.filter_congr fun e _ => ?_
    rw [Bool.eq_iff_iff, TimeRange.contains_iff, decide_eq_true_eq]
  · intro hall
    have hwhole : (recorded actions).filter (fun e => range.contains e.timestamp) =
        recorded actions :=
      List.filter_eq_self.mpr fun e he => TimeRange.contains_iff.mpr (hall e he)
    rw [hwhole, htracks.head_eq]
    cases (recorded actions).getLast? <;> rfl

/-- Actions among which the clock goes back behind a reopening. -/
def backwardActions : List Action :=
  [.record ⟨.agentSpawned, "agents", none, .null⟩ ⟨5⟩, .reopen 0,
    .record ⟨.agentPaused, "agents", some "a", .null⟩ ⟨3⟩,
    .record ⟨.agentResumed, "agents", some "a", .null⟩ ⟨9⟩]

/-- One span sets out in the middle of the chain, and another one leaves nothing out. -/
theorem run_exported_lateSpan :
    ∃ a late whole, run (.ledger {}) 1 backwardActions = .ok (a : Engine Backend) ∧
      a.exported ⟨⟨6⟩, ⟨10⟩⟩ = .ok late ∧ late.map (·.id) = [3] ∧
      replayWith .checked late = some (.ok (late.getLast?.elim .genesis (·.hash))) ∧
      a.exported ⟨⟨5⟩, ⟨10⟩⟩ = .ok whole ∧ whole.map (·.id) = [1, 2, 3] ∧
      replayWith .checked whole = some (.ok a.head.hash) := by
  have hclock : ∀ event now, .record event now ∈ backwardActions → now.checked? = some now := by
    intro event now hmem
    simp only [backwardActions, List.mem_cons, Action.record.injEq, List.not_mem_nil, or_false,
      reduceCtorEq, false_or] at hmem
    rcases hmem with ⟨-, rfl⟩ | ⟨-, rfl⟩ | ⟨-, rfl⟩ <;> decide
  have hstored : ∀ e ∈ recorded backwardActions,
      e.id < 2 ^ 64 - 1 ∧ (⟨5⟩ : Instant) ≤ e.timestamp ∧ e.timestamp < ⟨10⟩ := by
    intro e he
    simp only [recorded, backwardActions, drafts, chain, List.mem_cons, List.not_mem_nil,
      or_false] at he
    rcases he with rfl | rfl | rfl <;> exact ⟨by decide, by decide, by decide⟩
  have hfresh := Fresh.ledger hclock (by decide)
  obtain ⟨a, late, hrun, -, hlate, rfl, -, -, hreplay, -⟩ := run_exported hfresh 1 ⟨⟨6⟩, ⟨10⟩⟩
  obtain ⟨b, whole, hsame, -, hwhole, rfl, -, -, hreplayWhole, hhead⟩ :=
    run_exported hfresh 1 ⟨⟨5⟩, ⟨10⟩⟩
  obtain rfl : a = b := Except.ok.inj (hrun.symm.trans hsame)
  refine ⟨a, _, _, hrun, hlate, rfl, hreplay ?_ .checked, hwhole, rfl, ?_⟩
  · intro e he
    exact (hstored e (List.mem_filter.mp he).1).1
  · rw [← hhead fun e he => (hstored e he).2]
    refine hreplayWhole ?_ .checked
    intro e he
    exact (hstored e (List.mem_filter.mp he).1).1

end Audit

end AgentGovernance

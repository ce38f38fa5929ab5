import AgentGovernance.Proofs.Audit.Verification

/-!
# What a run records

Over an empty store of either kind a run leaves the chain of its events behind and an engine that
stands at its end. Opening the engine again does not show in the chain, and every entry verifies
while the checkpoints come and go.
-/
namespace AgentGovernance.Audit

open Trace

/-- An empty store that has room for what a run records: the ids and stamps in a ledger are texts,
and hold words and instants of the calendar. -/
inductive Fresh (actions : List Action) : Backend → Prop where
  | log : Fresh actions (.log {})
  | ledger : (∀ event now, .record event now ∈ actions → now.checked? = some now) →
      (actions.filter Action.isRecord).length < 2 ^ 64 → Fresh actions (.ledger {})

theorem Fresh.filter_isRecord {actions : List Action} {store : Backend} (h : Fresh actions store) :
    Fresh (actions.filter Action.isRecord) store := by
  cases h with
  | log => exact .log
  | ledger hclock hcount =>
      refine .ledger (fun event now hmem => hclock event now (List.mem_filter.mp hmem).1) ?_
      simpa only [List.filter_filter, Bool.and_self] using hcount

theorem isWritable_of_mem_recorded {actions : List Action}
    (hclock : ∀ event now, .record event now ∈ actions → now.checked? = some now)
    (hcount : (actions.filter Action.isRecord).length < 2 ^ 64) {e : Entry}
    (he : e ∈ recorded actions) : e.IsWritable := by
  have hlinked : Linked 1 .genesis (recorded actions) := linked_chain 1 .genesis _
  have hlength := length_recorded actions
  obtain ⟨i, hi, rfl⟩ := List.mem_iff_getElem.mp he
  have hid := (hlinked.getElem hi).1
  refine ⟨by omega, ?_⟩
  have hstamps := map_timestamp_chain 1 .genesis (drafts none actions)
  have hmem : (recorded actions)[i].timestamp ∈ (drafts none actions).map (·.timestamp) :=
    hstamps ▸ List.mem_map_of_mem he
  obtain ⟨d, hd, hstamp⟩ := List.mem_map.mp hmem
  rw [← hstamp]
  rcases timestamp_of_mem_drafts hd with h | ⟨event, h⟩
  · cases h
  · exact hclock event d.timestamp h

theorem Fresh.run {actions : List Action} {store : Backend} (h : Fresh actions store)
    (interval : Nat) :
    ∃ a, Audit.run store interval actions = .ok a ∧ Shows a.store (recorded actions) ∧
      a.Tracks (recorded actions) := by
  cases h with
  | log =>
      obtain ⟨a, hrun, hkeeps, htracks⟩ := run_of_lawful Backend.lawful_log ⟨{}, rfl, rfl, trivial⟩
        interval actions fun _ _ => trivial
      exact ⟨a, hrun, Backend.lawful_log.shows hkeeps, htracks⟩
  | ledger hclock hcount =>
      have hempty : Ledger.Keeps {} [] := ⟨trivial, fun e he => (by cases he), rfl, rfl⟩
      obtain ⟨a, hrun, hkeeps, htracks⟩ := run_of_lawful Backend.lawful_ledger ⟨{}, rfl, hempty⟩
        interval actions fun e he => isWritable_of_mem_recorded hclock hcount he
      exact ⟨a, hrun, Backend.lawful_ledger.shows hkeeps, htracks⟩

theorem recorded_monotone (actions : List Action) :
    (recorded actions).Pairwise fun d e => d.timestamp ≤ e.timestamp := by
  have hsorted := (drafts_monotone none actions).2
  rw [← map_timestamp_chain 1 .genesis] at hsorted
  exact List.pairwise_map.mp hsorted

theorem recorded_filter_isRecord (actions : List Action) :
    recorded (actions.filter Action.isRecord) = recorded actions := by
  rw [recorded, drafts_filter_isRecord]
  rfl

theorem Engine.Tracks.head_eq {σ : Type} {a : Engine σ} {es : List Entry} (h : a.Tracks es) :
    a.head = es.getLast?.elim .genesis fun e => ⟨e.id, e.hash⟩ := by
  rw [h.head]
  cases hlast : es.getLast? with
  | none =>
      rw [List.getLast?_eq_none_iff.mp hlast]
      rfl
  | some e =>
      obtain ⟨init, rfl⟩ := List.getLast?_eq_some_iff.mp hlast
      have hid := (linked_append.mp h.linked).2.1
      rw [lastHash_of_getLast? hlast, Option.elim_some, hid, List.length_append,
        List.length_singleton, Nat.add_comm]

/-- Every record and every reopening of a run succeeds. The store then holds one entry for each
event: a chain from genesis with the ids 1, 2, … and stamps that never decrease, the same as without
the reopenings. The engine stands at its last entry, every entry of it verifies, and other ids are
not found. -/
theorem run_recorded {actions : List Action} {store : Backend} (h : Fresh actions store)
    (interval : Nat) :
    ∃ a b, run store interval actions = .ok a ∧
      run store interval (actions.filter Action.isRecord) = .ok b ∧
      Shows a.store (recorded actions) ∧ Shows b.store (recorded actions) ∧
      (recorded actions).length = (actions.filter Action.isRecord).length ∧
      IsChain (recorded actions) ∧
      (recorded actions).Pairwise (fun d e => d.timestamp ≤ e.timestamp) ∧
      a.size = (recorded actions).length ∧
      a.head = (recorded actions).getLast?.elim .genesis (fun e => ⟨e.id, e.hash⟩) ∧
      (∀ t, 1 ≤ t → t ≤ (recorded actions).length →
        ∃ r, (a.verify t).result = .ok r ∧ r.valid = true) ∧
      ∀ t, t = 0 ∨ (recorded actions).length < t →
        (a.verify t).result = .error (.notFound .traceEntry (toString t)) := by
  obtain ⟨a, hrun, hshows, htracks⟩ := h.run interval
  obtain ⟨b, hplain, hsame, -⟩ := h.filter_isRecord.run interval
  rw [recorded_filter_isRecord] at hsame
  have hsize : a.size = (recorded actions).length := by rw [Engine.size, htracks.head]
  refine ⟨a, b, hrun, hplain, hshows, hsame, length_recorded actions, htracks.linked.isChain,
    recorded_monotone actions, hsize, htracks.head_eq, ?_, ?_⟩
  · intro t hpos hle
    exact htracks.verify_valid hshows hpos hle
  · intro t ht
    rw [← hsize] at ht
    exact Engine.verify_of_outside ht

/-- The clock goes back and checkpoints are given up between two records to a ledger. -/
theorem run_recorded_reopened :
    ∃ a, run (.ledger {}) 1
        [.record ⟨.agentSpawned, "agents", none, .null⟩ ⟨5⟩, .reopen 0,
          .record ⟨.agentPaused, "agents", some "a", .null⟩ ⟨3⟩] = .ok (a : Engine Backend) ∧
      a.size = 2 ∧ ∃ r, (a.verify 2).result = .ok r ∧ r.valid = true := by
  have hclock : ∀ event now,
      .record event now ∈ [Action.record ⟨.agentSpawned, "agents", none, .null⟩ ⟨5⟩, .reopen 0,
        .record ⟨.agentPaused, "agents", some "a", .null⟩ ⟨3⟩] → now.checked? = some now := by
    intro event now hmem
    simp only [List.mem_cons, Action.record.injEq, List.not_mem_nil, or_false, reduceCtorEq,
      false_or] at hmem
    rcases hmem with ⟨-, rfl⟩ | ⟨-, rfl⟩ <;> decide
  obtain ⟨a, b, hrun, -, -, -, hlength, -, -, hsize, -, hverify, -⟩ :=
    run_recorded (.ledger hclock (by decide)) 1
  exact ⟨a, hrun, hsize.trans hlength, hverify 2 (by decide) (Nat.le_of_eq hlength.symm)⟩

end AgentGovernance.Audit

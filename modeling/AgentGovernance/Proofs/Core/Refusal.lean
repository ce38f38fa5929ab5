import AgentGovernance.Proofs.Consensus.Refusal
import AgentGovernance.Proofs.Lifecycle.Refusal

/-!
# Failed calls

Calls of the lifecycle and of consensus fail for many reasons, before and after they have asked a
collaborator. Whatever the reason, a failed call that nothing interrupts leaves no trace, except
that a vote or a commit may expire the overdue proposal that it is about.
-/
namespace AgentGovernance

/-- Whatever a collaborator replies and whatever deadline passes, a call of the lifecycle that fails
changes nothing and publishes nothing, and so does a call of consensus; only a vote or a commit that
finds its proposal overdue expires it. -/
theorem failed_call_leaves_no_trace :
    (∀ (m : Lifecycle) tick now operation x f, Lifecycle.Concludes (m.start tick now operation) x →
      x.result = .error f → x.state = m ∧ x.published = []) ∧
    ∀ settings actions,
      Consensus.FailsCleanly settings (Consensus.Run.after settings actions).engine := by
  constructor
  · intro m tick now operation x f hends hx
    exact hends.of_error (.start tick now operation) hx
  · intro settings actions
    exact (Consensus.Run.after_keyed settings actions).failsCleanly settings

/-- The kernel is too slow for an execution, and a vote comes when its proposal is overdue. -/
theorem failed_call_leaves_no_trace_late :
    (∃ x, Lifecycle.Concludes
        (Lifecycle.start { agents := Table.empty.insert ⟨⟨1⟩⟩ (.new ⟨⟨1⟩⟩ ⟨"kernel-1"⟩ {} ⟨0⟩) }
          0 ⟨5⟩ (.execute ⟨⟨1⟩⟩ ⟨"work", .null, none, some 9⟩)) x ∧
      x.result = .error (.timeout (.missed "execute" .whileRunning)) ∧
      x.state = { agents := Table.empty.insert ⟨⟨1⟩⟩ (.new ⟨⟨1⟩⟩ ⟨"kernel-1"⟩ {} ⟨0⟩) } ∧
      x.published = []) ∧
    ∃ p, Consensus.OnlyExpires
      (Consensus.Run.after {} [.propose ⟨⟨⟨7⟩⟩, "deploy", 1, some ⟨100⟩, none⟩ ⟨2⟩ ⟨0⟩]).engine
      ⟨⟨2⟩⟩ ⟨100⟩ p
      ((Consensus.Run.after {}
        [.propose ⟨⟨⟨7⟩⟩, "deploy", 1, some ⟨100⟩, none⟩ ⟨2⟩ ⟨0⟩]).engine.vote ⟨⟨2⟩⟩
        ⟨⟨"v1"⟩, .approve, 1, "s"⟩ ⟨100⟩) := by
  constructor
  · refine ⟨_, .missed rfl rfl, rfl, ?_⟩
    exact failed_call_leaves_no_trace.1 _ _ _ _ _ _ (.missed rfl rfl) rfl
  · have hclean := failed_call_leaves_no_trace.2 {}
      [.propose ⟨⟨⟨7⟩⟩, "deploy", 1, some ⟨100⟩, none⟩ ⟨2⟩ ⟨0⟩]
    rcases hclean.vote ⟨⟨2⟩⟩ ⟨⟨"v1"⟩, .approve, 1, "s"⟩ ⟨100⟩ _ rfl with ⟨hdue, -⟩ | hexpires
    · cases hdue
    · exact hexpires

end AgentGovernance

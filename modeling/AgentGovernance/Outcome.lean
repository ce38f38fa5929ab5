import AgentGovernance.Event
import AgentGovernance.Failure

/-!
# Outcomes

An operation on a component leaves a new state behind, publishes events in some order and returns a
result or a failure. A failed operation may still change the state and publish events.
-/
namespace AgentGovernance

structure Outcome (σ α : Type) where
  state : σ
  published : List Event := []
  result : Except Failure α

namespace Outcome

variable {σ τ α β : Type}

def ok (state : σ) (a : α) (published : List Event := []) : Outcome σ α := ⟨state, published, .ok a⟩

/-- Refuses an operation and leaves the state as it is. -/
def refuse (state : σ) (f : Failure) : Outcome σ α := ⟨state, [], .error f⟩

def mapState (f : σ → τ) (o : Outcome σ α) : Outcome τ α := ⟨f o.state, o.published, o.result⟩

/-- Goes on after a success, with the events of both parts in their order. -/
def andThen (o : Outcome σ α) (next : σ → α → Outcome σ β) : Outcome σ β :=
  match o.result with
  | .error f => ⟨o.state, o.published, .error f⟩
  | .ok a =>
      let p := next o.state a
      ⟨p.state, o.published ++ p.published, p.result⟩

def mapResult (f : α → β) (o : Outcome σ α) : Outcome σ β := ⟨o.state, o.published, o.result.map f⟩

end Outcome

end AgentGovernance

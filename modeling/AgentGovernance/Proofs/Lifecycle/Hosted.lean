import AgentGovernance.Proofs.Kernel
import AgentGovernance.Proofs.Lifecycle.Pending

/-!
# The lifecycle over the kernel in memory

Here the kernel that calls wait for is the one in memory, and nobody else uses it. A call waits until
the run has it served; the kernel then does its part, and the operation goes on at once from the
reply. The sandbox and the policy authority reply as they like, and the kernel may be switched off
and on.

An execution that begins while the kernel is offline fails, even if it is served later. Which ones
do is left to the run, so there are more runs here than the kernel allows.
-/
namespace AgentGovernance.Lifecycle

structure Hosted where
  run : Run := {}
  kernel : Kernel := {}

namespace Hosted

inductive Action where
  | start (o : Operation) (tick : Nat) (now : Instant)
  /-- Serves the call at a place; `refusal` is what an execution met when it began. -/
  | serve (place : Nat) (refusal : Option KernelError) (others : (r : Request) → r.Reply)
      (drawn fresh : Uuid) (now : Instant)
  | abandon (place : Nat)
  | switch (isOffline : Bool)

namespace Action

/-- How the id reads that the lifecycle draws. -/
def text? : Action → Option String
  | .serve _ _ _ _ fresh _ => some fresh.text
  | _ => none

/-- The handle that the kernel draws. -/
def handle? : Action → Option KernelHandle
  | .serve _ _ _ drawn _ _ => some (Kernel.handleOf drawn)
  | _ => none

end Action

/-- No two ids are drawn that read alike, and no handle is drawn twice. -/
structure DistinctIds (actions : List Action) : Prop where
  texts : (actions.filterMap Action.text?).Nodup
  handles : (actions.filterMap Action.handle?).Nodup

def step (s : Hosted) : Action → Hosted
  | .start o tick now => { s with run := s.run.step (.start o tick now) }
  | .serve place refusal others drawn fresh now =>
      match s.run.pending[place]? with
      | none => s
      | some c =>
          let serve := s.kernel.serve refusal others drawn
          { run := s.run.step (.reply place (fun r => (serve r).2) fresh now)
            kernel := (serve c.request).1 }
  | .abandon place => { s with run := s.run.step (.abandon place) }
  | .switch isOffline => { s with kernel := { s.kernel with isOffline } }

/-- The state after some actions, of a manager and a kernel that start empty. -/
def after (actions : List Action) : Hosted := actions.foldl step {}

theorem after_concat (actions : List Action) (a : Action) :
    after (actions ++ [a]) = (after actions).step a := by
  simp [after]

/-- A call that waits is taken up with what the kernel makes of its request. -/
theorem step_serve {s : Hosted} {place : Nat} {c : Call} (hc : s.run.pending[place]? = some c)
    (refusal : Option KernelError) (others : (r : Request) → r.Reply) (drawn fresh : Uuid)
    (now : Instant) :
    let served := s.kernel.serve refusal others drawn c.request
    s.step (.serve place refusal others drawn fresh now) =
      ⟨(s.run.withoutPending place).takeOver (.replied c)
        (s.run.manager.resume fresh now c served.2), served.1⟩ := by
  simp only [step, hc, Run.step]

theorem DistinctIds.of_append {actions more : List Action} (h : DistinctIds (actions ++ more)) :
    DistinctIds actions :=
  ⟨nodup_draws_of_append h.texts, nodup_draws_of_append h.handles⟩

/-! ## What the lifecycle sees -/

/-- What an action is to the lifecycle. -/
def seen (s : Hosted) : Action → List Lifecycle.Action
  | .start o tick now => [.start o tick now]
  | .serve place refusal others drawn fresh now =>
      [.reply place (fun r => (s.kernel.serve refusal others drawn r).2) fresh now]
  | .abandon place => [.abandon place]
  | .switch _ => []

theorem step_run (s : Hosted) (a : Action) : (s.step a).run = (s.seen a).foldl Run.step s.run := by
  cases a with
  | start | abandon | switch => rfl
  | serve place refusal others drawn fresh now =>
      simp only [step, seen, List.foldl_cons, List.foldl_nil]
      split
      next h => simp only [Run.step, h]
      next => rfl

/-- A hosted run is a run of the lifecycle that draws the same ids. -/
theorem exists_after (actions : List Action) :
    ∃ as, (after actions).run = Run.after as ∧
      as.filterMap Lifecycle.Action.text? = actions.filterMap Action.text? := by
  induction actions using List.reverseRecOn with
  | nil => exact ⟨[], rfl, rfl⟩
  | append_singleton actions a ih =>
      obtain ⟨as, hrun, htexts⟩ := ih
      refine ⟨as ++ (after actions).seen a, ?_, ?_⟩
      · rw [after_concat, step_run, hrun, Run.after, Run.after, List.foldl_append]
      · rw [List.filterMap_append, List.filterMap_append, htexts]
        cases a <;> rfl

theorem after_keyed (actions : List Action) : (after actions).run.manager.Keyed := by
  obtain ⟨as, hrun, -⟩ := exists_after actions
  rw [hrun]
  exact Run.after_keyed as

/-- What a waiting call holds about its agent is so. -/
theorem after_isCurrent {actions : List Action} (h : DistinctIds actions) {c : Call}
    (hc : c ∈ (after actions).run.pending) : c.IsCurrent (after actions).run.manager := by
  obtain ⟨as, hrun, htexts⟩ := exists_after actions
  rw [hrun] at hc ⊢
  refine Run.after_isCurrent ?_ hc
  rw [Lifecycle.DistinctIds, htexts]
  exact h.texts

/-- The snapshot that a waiting call recovers an agent from is stored. -/
theorem after_isFounded {actions : List Action} (h : DistinctIds actions) {c : Call}
    (hc : c ∈ (after actions).run.pending) : c.IsFounded (after actions).run.manager := by
  obtain ⟨as, hrun, htexts⟩ := exists_after actions
  rw [hrun] at hc ⊢
  refine Run.after_isFounded ?_ hc
  rw [Lifecycle.DistinctIds, htexts]
  exact h.texts

end Hosted

end AgentGovernance.Lifecycle

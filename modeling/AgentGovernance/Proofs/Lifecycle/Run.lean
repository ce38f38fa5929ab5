import AgentGovernance.Lifecycle

/-!
# Runs of the lifecycle

A run is a list of actions. Starting an operation is one action, and each reply that it waits for is
another, so anything may come between a request and its reply. An action carries the time its clock
shows; a reply is whatever the collaborator that is asked makes of it, a failure included, and comes
with the id that would be drawn.

The state of a run holds the agents and snapshots, the calls that wait, the events published so far
and what has been answered.
-/
namespace AgentGovernance.Lifecycle

inductive Action where
  | start (o : Operation) (tick : Nat) (now : Instant)
  /-- The reply to the call at a place among those that wait. -/
  | reply (place : Nat) (reply : (r : Request) → r.Reply) (fresh : Uuid) (now : Instant)
  /-- Gives a call up because its deadline has passed or nobody waits for it any more. -/
  | abandon (place : Nat)

/-- The id that an action draws. -/
def Action.fresh? : Action → Option Uuid
  | .reply _ _ fresh _ => some fresh
  | _ => none

/-- How the id reads that an action draws. -/
def Action.text? (a : Action) : Option String := a.fresh?.map Uuid.text

/-- No two ids are drawn that read alike. -/
def DistinctIds (actions : List Action) : Prop := (actions.filterMap Action.text?).Nodup

/-- A call and what the collaborators reply with. -/
structure Cause where
  call : Call
  reply : (r : Request) → r.Reply

/-- What an operation came to, and what its last part was. -/
inductive Answer where
  | atOnce (o : Operation) (result : Except Failure Result)
  | replied (c : Call) (result : Except Failure Result)
  | abandoned (c : Call)

structure Run where
  manager : Lifecycle := {}
  pending : List Call := []
  published : List Event := []
  answers : List Answer := []

namespace Run

def withoutPending (r : Run) (place : Nat) : Run :=
  { r with pending := r.pending.eraseIdx place }

def answer (r : Run) (x : Answer) : Run := { r with answers := r.answers ++ [x] }

/-- Takes over what a part of an operation came to; unless the operation waits again, that is its
answer. -/
def takeOver (r : Run) (toAnswer : Except Failure Result → Answer) (o : Outcome Lifecycle Progress) :
    Run :=
  let r := { r with manager := o.state, published := r.published ++ o.published }
  match o.result with
  | .ok (.waiting c) => { r with pending := r.pending ++ [c] }
  | .ok (.finished a) => r.answer (toAnswer (.ok a))
  | .error f => r.answer (toAnswer (.error f))

@[simp] theorem takeOver_manager (r : Run) (toAnswer : Except Failure Result → Answer)
    (o : Outcome Lifecycle Progress) : (r.takeOver toAnswer o).manager = o.state := by
  unfold takeOver
  split <;> rfl

@[simp] theorem takeOver_published (r : Run) (toAnswer : Except Failure Result → Answer)
    (o : Outcome Lifecycle Progress) :
    (r.takeOver toAnswer o).published = r.published ++ o.published := by
  unfold takeOver
  split <;> rfl

/-- What an action replies to. -/
def cause? (r : Run) : Action → Option Cause
  | .reply place reply _ _ => r.pending[place]?.map (⟨·, reply⟩)
  | _ => none

def step (r : Run) : Action → Run
  | .start o tick now => r.takeOver (.atOnce o) (r.manager.start tick now o)
  | .reply place reply fresh now =>
      match r.pending[place]? with
      | none => r
      | some c =>
          (r.withoutPending place).takeOver (.replied c)
            (r.manager.resume fresh now c (reply c.request))
  | .abandon place =>
      match r.pending[place]? with
      | none => r
      | some c => (r.withoutPending place).answer (.abandoned c)

/-- The state after some actions of a manager that starts without agents. -/
def after (actions : List Action) : Run := actions.foldl step {}

theorem after_concat (actions : List Action) (a : Action) :
    after (actions ++ [a]) = (after actions).step a := by
  simp [after]

end Run

/-- Collaborators that do whatever they are asked. -/
def obliging : (r : Request) → r.Reply
  | .spawn _ => .ok ⟨"kernel-1"⟩
  | .execute _ _ _ => .ok .null
  | .snapshot _ => .ok ⟨"ksnap-1"⟩
  | .recover _ => .ok ⟨"kernel-2"⟩
  | .terminate _ => .ok ()
  | .attach _ _ => .ok ["read"]
  | .judge _ _ => .ok ⟨true, ""⟩

end AgentGovernance.Lifecycle

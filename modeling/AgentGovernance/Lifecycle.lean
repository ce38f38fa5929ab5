import AgentGovernance.Outcome
import AgentGovernance.Request

/-!
# The lifecycle of agents

An operation reads and checks an agent, asks a collaborator, checks again, changes the agent and
publishes what happened. While it waits for a reply it holds nothing but the `Call` that says how to
go on, so other operations may run in between. `start` runs an operation up to its first request or
its end; `resume` goes on from a reply. A call that is given up changes nothing.

An execution may have a deadline, a tick of the clock that measures waiting. It covers the judgement
and the execution itself.
-/
namespace AgentGovernance

namespace Lifecycle

/-- The name under which the lifecycle publishes. -/
def source : String := "lifecycle"

structure Intent where
  name : String
  params : Json := .null
  /-- Takes precedence over the agreement in the agent's constraints. -/
  agreement : Option AgreementRef := none
  deadline : Option Nat := none

inductive Operation where
  | spawn (constraints : AgentConstraints)
  | attach (agent : AgentId) (plugin : PluginId)
  | execute (agent : AgentId) (intent : Intent)
  | snapshot (agent : AgentId)
  | recover (snapshot : SnapshotId)
  | terminate (agent : AgentId)
  | pause (agent : AgentId)
  | resume (agent : AgentId)

/-- What an execution still needs to know once its agent has been checked. -/
structure Execution where
  agent : AgentId
  handle : KernelHandle
  intent : Intent
  /-- The agreement in effect. -/
  agreement : Option AgreementRef

/-- A suspended operation. -/
inductive Call where
  | spawning (constraints : AgentConstraints)
  | attaching (agent : AgentId) (handle : KernelHandle) (plugin : PluginId)
  | judging (execution : Execution) (agreement : AgreementRef)
  | executing (execution : Execution)
  | snapshotting (agent : AgentId) (handle : KernelHandle)
  | recovering (snapshot : Snapshot)
  | terminating (agent : AgentId) (handle : KernelHandle)

namespace Call

/-- What a suspended operation waits for. -/
abbrev request : Call → Request
  | .spawning constraints => .spawn constraints
  | .attaching _ handle plugin => .attach handle plugin
  | .judging e agreement => .judge agreement (executeAction e.intent.name)
  | .executing e => .execute e.handle e.intent.name e.intent.params
  | .snapshotting _ handle => .snapshot handle
  | .recovering snapshot => .recover snapshot.kernelSnapshot
  | .terminating _ handle => .terminate handle

def deadline? : Call → Option Nat
  | .judging e _ => e.intent.deadline
  | .executing e => e.intent.deadline
  | _ => none

end Call

inductive Result where
  | agent (id : AgentId)
  | capabilities (names : List String)
  | execution (outcome : ExecutionOutcome)
  | snapshot (id : SnapshotId)
  | done

def Result.toJson : Result → Json
  | .agent id => encode id
  | .capabilities names => encode names
  | .execution outcome => encode outcome
  | .snapshot id => encode id
  | .done => .null

inductive Progress where
  | waiting (call : Call)
  | finished (result : Result)

end Lifecycle

open Lifecycle in
structure Lifecycle where
  agents : Table AgentId Agent := ∅
  snapshots : Table SnapshotId Snapshot := ∅

namespace Lifecycle

def get (m : Lifecycle) (id : AgentId) : Except Failure Agent :=
  match m.agents.find? id with
  | some a => .ok a
  | none => .error (.notFound .agent id.uuid.text)

def getSnapshot (m : Lifecycle) (id : SnapshotId) : Except Failure Snapshot :=
  match m.snapshots.find? id with
  | some s => .ok s
  | none => .error (.notFound .snapshot id.uuid.text)

def statuses (m : Lifecycle) : List (AgentId × AgentStatus) :=
  m.agents.values.map fun a => (a.id, a.status)

def withAgent (m : Lifecycle) (a : Agent) : Lifecycle := { m with agents := m.agents.insert a.id a }

def event (type : EventType) (agent : AgentId) (payload : List (String × Json)) : Event where
  type := type
  source := source
  target := some agent.uuid.text
  payload := .object (("agent_id", encode agent) :: payload)

/-- Ends an operation that changed the state. -/
def finish (m : Lifecycle) (r : Result) (published : List Event) : Outcome Lifecycle Progress :=
  .ok m (.finished r) published

def wait (m : Lifecycle) (c : Call) : Outcome Lifecycle Progress := .ok m (.waiting c)

/-- Goes on with the value of a check, or ends in its failure. -/
def checked {α : Type} (m : Lifecycle) (check : Except Failure α)
    (next : α → Outcome Lifecycle Progress) :
    Outcome Lifecycle Progress :=
  match check with
  | .ok a => next a
  | .error f => .refuse m f

/-! ## Starting -/

def unarchived (m : Lifecycle) (id : AgentId) : Except Failure Agent := do
  let a ← m.get id
  a.ensureNotArchived
  return a

/-- The agent and its agreement in effect, if it may carry out an intent. -/
def admitted (m : Lifecycle) (id : AgentId) (intent : Intent) : Except Failure Execution := do
  let a ← m.get id
  a.ensureActive
  if !a.constraints.permits intent.name then
    throw (.constraintViolation (.intentNotAllowed intent.name id))
  return ⟨id, a.handle, intent, intent.agreement.or a.constraints.agreementRef⟩

def isPast (deadline : Option Nat) (tick : Nat) : Bool := deadline.any (· ≤ tick)

def startExecution (m : Lifecycle) (e : Execution) (tick : Nat) : Outcome Lifecycle Progress :=
  if isPast e.intent.deadline tick then .refuse m (.timeout (.missed "execute" .beforeStart))
  else match e.agreement with
    | some agreement => m.wait (.judging e agreement)
    | none => m.wait (.executing e)

def pause (m : Lifecycle) (id : AgentId) (now : Instant) : Outcome Lifecycle Progress :=
  m.checked (m.get id >>= (·.pause now)) fun a =>
    (m.withAgent a).finish .done [event .agentPaused id []]

def unpause (m : Lifecycle) (id : AgentId) (now : Instant) : Outcome Lifecycle Progress :=
  m.checked (m.get id >>= (·.resume now)) fun a =>
    (m.withAgent a).finish .done [event .agentResumed id []]

/-- Terminating an archived agent does nothing. -/
def startTermination (m : Lifecycle) (a : Agent) : Outcome Lifecycle Progress :=
  if a.isArchived then m.finish .done [] else m.wait (.terminating a.id a.handle)

/-- Runs an operation up to its first request or its end. -/
def start (m : Lifecycle) (tick : Nat) (now : Instant) : Operation → Outcome Lifecycle Progress
  | .spawn constraints => m.wait (.spawning constraints)
  | .attach id plugin => m.checked (m.unarchived id) fun a => m.wait (.attaching id a.handle plugin)
  | .execute id intent => m.checked (m.admitted id intent) (m.startExecution · tick)
  | .snapshot id => m.checked (m.unarchived id) fun a => m.wait (.snapshotting id a.handle)
  | .recover id => m.checked (m.getSnapshot id) fun s => m.wait (.recovering s)
  | .terminate id => m.checked (m.get id) m.startTermination
  | .pause id => m.pause id now
  | .resume id => m.unpause id now

/-! ## Resuming -/

def spawned (m : Lifecycle) (constraints : AgentConstraints) (handle : KernelHandle) (fresh : Uuid)
    (now : Instant) : Outcome Lifecycle Progress :=
  let a := Agent.new ⟨fresh⟩ handle constraints now
  (m.withAgent a).finish (.agent a.id)
    [event .agentSpawned a.id
      [("kernel_handle", encode handle), ("constraints", encode constraints)]]

/-- A plugin that was attached before is not published again. -/
def attached (m : Lifecycle) (id : AgentId) (plugin : PluginId) (capabilities : List String)
    (now : Instant) :
    Outcome Lifecycle Progress :=
  m.checked (m.get id >>= (·.attach plugin now)) fun (a, isNew) =>
    let published := event .agentPluginAttached id
      [("plugin_id", encode plugin), ("capabilities", encode capabilities)]
    (m.withAgent a).finish (.capabilities capabilities) (if isNew then [published] else [])

def judged (m : Lifecycle) (e : Execution) (d : Decision) : Outcome Lifecycle Progress :=
  if d.compliant then m.wait (.executing e)
  else .refuse m (.constraintViolation (.notCompliant d.reason))

def executed (m : Lifecycle) (e : Execution) (result : Json) (fresh : Uuid) (now : Instant) :
    Outcome Lifecycle Progress :=
  m.checked (m.get e.agent >>= (·.recordExecution now)) fun a =>
    let outcome : ExecutionOutcome := ⟨⟨fresh⟩, e.agent, result⟩
    (m.withAgent a).finish (.execution outcome)
      [event .agentExecuted e.agent
        [("execution_id", encode outcome.execution), ("intent", encode e.intent.name),
         ("agreement_ref", encode e.agreement),
         ("result_hash", encode (ContentHash.ofJson result))]]

/-- The snapshot holds the agent as it is when the kernel has replied. -/
def snapshotted (m : Lifecycle) (id : AgentId) (kernelSnapshot : KernelSnapshot) (fresh : Uuid)
    (now : Instant) : Outcome Lifecycle Progress :=
  m.checked (m.unarchived id) fun a =>
    let s := a.snapshot ⟨fresh⟩ kernelSnapshot now
    { m with snapshots := m.snapshots.insert s.id s }.finish (.snapshot s.id)
      [event .agentSnapshotted id [("snapshot_id", encode s.id)]]

def recovered (m : Lifecycle) (s : Snapshot) (handle : KernelHandle) (fresh : Uuid)
    (now : Instant) :
    Outcome Lifecycle Progress :=
  let a := Agent.recovered ⟨fresh⟩ handle s now
  (m.withAgent a).finish (.agent a.id)
    [event .agentRecovered a.id
      [("snapshot_id", encode s.id), ("original_agent_id", encode s.agent),
       ("memory_ref", encode s.memoryRef)]]

def terminated (m : Lifecycle) (id : AgentId) (now : Instant) : Outcome Lifecycle Progress :=
  m.checked (m.get id) fun a =>
    let (a, isNew) := a.archive now
    (m.withAgent a).finish .done (if isNew then [event .agentTerminated id []] else [])

/-- Goes on from a reply, under the id `fresh` if something new is to be named. A handle that the
kernel has lost already counts as terminated. -/
def resume (m : Lifecycle) (fresh : Uuid) (now : Instant) :
    (c : Call) → c.request.Reply → Outcome Lifecycle Progress
  | .spawning constraints, .ok handle => m.spawned constraints handle fresh now
  | .spawning _, .error e => .refuse m (.ofKernel e)
  | .attaching id _ plugin, .ok capabilities => m.attached id plugin capabilities now
  | .attaching _ _ _, .error e => .refuse m (.ofSandbox e)
  | .judging e _, .ok d => m.judged e d
  | .judging _ _, .error e => .refuse m (.ofPolicy e)
  | .executing e, .ok result => m.executed e result fresh now
  | .executing _, .error e => .refuse m (.ofKernel e)
  | .snapshotting id _, .ok s => m.snapshotted id s fresh now
  | .snapshotting _ _, .error e => .refuse m (.ofKernel e)
  | .recovering s, .ok handle => m.recovered s handle fresh now
  | .recovering _, .error e => .refuse m (.ofKernel e)
  | .terminating id _, .ok () => m.terminated id now
  | .terminating id _, .error (.handleNotFound _) => m.terminated id now
  | .terminating _ _, .error e => .refuse m (.ofKernel e)

/-- Whether ending with a result has used the fresh id. -/
def Result.isNamed : Result → Bool
  | .agent _ | .execution _ | .snapshot _ => true
  | .capabilities _ | .done => false

end Lifecycle

end AgentGovernance

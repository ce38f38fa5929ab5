import AgentGovernance.Json.Codec

/-!
# Agents

An agent is active, paused or archived; archived is final. Only an active agent executes intents,
and an agent that is not archived takes further plugins. An agent recovered from a snapshot has an
identity of its own and shares the memory of the agent the snapshot was taken of.
-/
namespace AgentGovernance

/-- What an agent may use and do. No allowed intents means every intent is allowed. -/
structure AgentConstraints where
  cpuMillis : Option UInt32 := none
  memoryMb : Option UInt64 := none
  allowedIntents : List String := []
  agreementRef : Option AgreementRef := none
  deriving DecidableEq, Repr

instance : Codec AgentConstraints where
  encode c := .record
    [("cpu_millis", c.cpuMillis.map encode), ("memory_mb", c.memoryMb.map encode),
     ("allowed_intents", if c.allowedIntents.isEmpty then none else some (encode c.allowedIntents)),
     ("agreement_ref", c.agreementRef.map encode)]
  decode? := Codec.readRecord do
    let cpu ← Codec.optional "cpu_millis"
    let memory ← Codec.optional "memory_mb"
    let intents ← Codec.withDefault "allowed_intents" []
    let agreement ← Codec.optional "agreement_ref"
    return ⟨cpu, memory, intents, agreement⟩

def AgentConstraints.permits (c : AgentConstraints) (intent : String) : Bool :=
  c.allowedIntents.isEmpty || c.allowedIntents.contains intent

structure Agent where
  id : AgentId
  status : AgentStatus
  plugins : List PluginId
  /-- The owner of the memory this agent reads and writes. -/
  memoryRef : AgentId
  handle : KernelHandle
  constraints : AgentConstraints
  recoveredFrom : Option SnapshotId
  executions : UInt64
  createdAt : Instant
  updatedAt : Instant
  deriving DecidableEq, Repr

instance : Codec Agent where
  encode a := .record
    [("id", encode a.id), ("status", encode a.status), ("plugin_ids", encode a.plugins),
     ("memory_ref", encode a.memoryRef), ("kernel_handle", encode a.handle),
     ("constraints", encode a.constraints), ("recovered_from", a.recoveredFrom.map encode),
     ("execution_count", encode a.executions), ("created_at", encode a.createdAt),
     ("updated_at", encode a.updatedAt)]
  decode? := Codec.readRecord do
    let id ← Codec.required "id"
    let status ← Codec.required "status"
    let plugins ← Codec.required "plugin_ids"
    let memoryRef ← Codec.required "memory_ref"
    let handle ← Codec.required "kernel_handle"
    let constraints ← Codec.required "constraints"
    let recoveredFrom ← Codec.optional "recovered_from"
    let executions ← Codec.required "execution_count"
    let createdAt ← Codec.required "created_at"
    let updatedAt ← Codec.required "updated_at"
    return ⟨id, status, plugins, memoryRef, handle, constraints, recoveredFrom, executions,
      createdAt, updatedAt⟩

/-- Everything a new agent takes over from the one that was snapshotted. -/
structure Snapshot where
  id : SnapshotId
  agent : AgentId
  kernelSnapshot : KernelSnapshot
  plugins : List PluginId
  memoryRef : AgentId
  constraints : AgentConstraints
  takenAt : Instant
  deriving DecidableEq, Repr

instance : Codec Snapshot where
  encode s := .record
    [("id", encode s.id), ("agent_id", encode s.agent),
     ("kernel_snapshot", encode s.kernelSnapshot), ("plugin_ids", encode s.plugins),
     ("memory_ref", encode s.memoryRef), ("constraints", encode s.constraints),
     ("taken_at", encode s.takenAt)]
  decode? := Codec.readRecord do
    let id ← Codec.required "id"
    let agent ← Codec.required "agent_id"
    let kernelSnapshot ← Codec.required "kernel_snapshot"
    let plugins ← Codec.required "plugin_ids"
    let memoryRef ← Codec.required "memory_ref"
    let constraints ← Codec.required "constraints"
    let takenAt ← Codec.required "taken_at"
    return ⟨id, agent, kernelSnapshot, plugins, memoryRef, constraints, takenAt⟩

structure ExecutionOutcome where
  execution : ExecutionId
  agent : AgentId
  result : Json
  deriving DecidableEq, Repr

instance : Codec ExecutionOutcome where
  encode o := .record
    [("execution_id", encode o.execution), ("agent_id", encode o.agent),
     ("result", encode o.result)]
  decode? := Codec.readRecord do
    let execution ← Codec.required "execution_id"
    let agent ← Codec.required "agent_id"
    let result ← Codec.required "result"
    return ⟨execution, agent, result⟩

namespace Agent

def new (id : AgentId) (handle : KernelHandle) (constraints : AgentConstraints) (now : Instant) :
    Agent where
  id := id
  status := .active
  plugins := []
  memoryRef := id
  handle := handle
  constraints := constraints
  recoveredFrom := none
  executions := 0
  createdAt := now
  updatedAt := now

def recovered (id : AgentId) (handle : KernelHandle) (snapshot : Snapshot) (now : Instant) :
    Agent :=
  { new id handle snapshot.constraints now with
    plugins := snapshot.plugins
    memoryRef := snapshot.memoryRef
    recoveredFrom := some snapshot.id }

def snapshot (a : Agent) (id : SnapshotId) (kernelSnapshot : KernelSnapshot) (now : Instant) :
    Snapshot :=
  ⟨id, a.id, kernelSnapshot, a.plugins, a.memoryRef, a.constraints, now⟩

def isActive (a : Agent) : Bool := a.status = .active

def isArchived (a : Agent) : Bool := a.status = .archived

def ensureActive (a : Agent) : Except Failure Unit :=
  if a.isActive then .ok () else .error (.invalidState (.agentNotActive a.id a.status))

def ensureNotArchived (a : Agent) : Except Failure Unit :=
  if a.isArchived then .error (.invalidState (.agentArchived a.id)) else .ok ()

/-- Attaches a plugin and says whether it is new; one that is attached stays where it is. -/
def attach (a : Agent) (plugin : PluginId) (now : Instant) : Except Failure (Agent × Bool) := do
  a.ensureNotArchived
  if a.plugins.contains plugin then return (a, false)
  return ({ a with plugins := a.plugins ++ [plugin], updatedAt := now }, true)

def recordExecution (a : Agent) (now : Instant) : Except Failure Agent := do
  a.ensureActive
  return { a with executions := a.executions + 1, updatedAt := now }

def pause (a : Agent) (now : Instant) : Except Failure Agent := do
  a.ensureActive
  return { a with status := .paused, updatedAt := now }

def resume (a : Agent) (now : Instant) : Except Failure Agent :=
  if a.status = .paused then .ok { a with status := .active, updatedAt := now }
  else .error (.invalidState (.agentNotPaused a.id a.status))

/-- Archives an agent and says whether it was not archived before. -/
def archive (a : Agent) (now : Instant) : Agent × Bool :=
  if a.isArchived then (a, false) else ({ a with status := .archived, updatedAt := now }, true)

end Agent

end AgentGovernance

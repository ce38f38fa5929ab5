import AgentGovernance.Audit
import AgentGovernance.Consensus
import AgentGovernance.EventBus
import AgentGovernance.Lifecycle
import AgentGovernance.Memory.Store

/-!
# The core

The core joins the lifecycle of agents, their memory, consensus and the audit engine by one event
bus. What an operation of a component publishes goes to the bus, and from there, event by event, to
the audit engine, which subscribes to everything before anything is published.

An agent's memory is kept under its memory reference, so an agent that was recovered goes on with
the memory of the agent it was recovered from.
-/
namespace AgentGovernance

structure Core (σ : Type) where
  manifest : Config.Manifest
  proofs : ProofSystem
  lifecycle : Lifecycle := {}
  consensus : Consensus := {}
  memory : Memory.Store
  audit : Audit.Engine σ
  bus : EventBus
  /-- The subscription of the audit engine. -/
  auditor : Nat

/-- Why a core could not be built. -/
inductive BuildError where
  | invalid (fault : Config.Fault)
  | unopenable (path : String)
  | brokenChain (why : Failure)
  | noSubscription (why : BusError)
  deriving DecidableEq, Repr

def BuildError.message : BuildError → String
  | .invalid fault => "Configuration validation failed: " ++ fault.message
  | .unopenable path => "Failed to open trace store at " ++ path
  | .brokenChain why => "Failed to open trace chain: " ++ why.message
  | .noSubscription why => "Failed to subscribe audit engine: " ++ why.message

namespace Core

variable {σ α : Type} [Trace.Store σ]

/-- Builds a core over a store. Subscriptions need a runtime that works off their queues. -/
def build (manifest : Config.Manifest) (proofs : ProofSystem) (store : Except BuildError σ)
    (hasRuntime : Bool) : Except BuildError (Core σ) :=
  match manifest.fault? with
  | some fault => .error (.invalid fault)
  | none => do
      let spec := manifest.spec
      let audit ← match Audit.Engine.open? (← store) spec.audit.checkpointInterval with
        | .ok a => pure a
        | .error f => throw (.brokenChain f)
      if !hasRuntime then throw (.noSubscription .noRuntime)
      let idle : EventBus := { window := .ofCapacity spec.bus.observerCapacity }
      let (bus, auditor) := idle.subscribe .all
      let limits : Memory.Limits := ⟨spec.memory.maxContentBytes, spec.memory.retention⟩
      return { manifest, proofs, memory := { limits }, audit, bus, auditor }

def publish (c : Core σ) (e : Event) : Core σ := { c with bus := c.bus.publish e }

/-- Sends the events of an operation to the bus. -/
def published (o : Outcome (Core σ) α) : Outcome (Core σ) α :=
  { o with state := o.published.foldl publish o.state }

def onLifecycle (c : Core σ) (o : Outcome Lifecycle α) : Outcome (Core σ) α :=
  published (o.mapState fun lifecycle => { c with lifecycle })

def onConsensus (c : Core σ) (o : Outcome Consensus α) : Outcome (Core σ) α :=
  published (o.mapState fun consensus => { c with consensus })

def onMemory (c : Core σ) (o : Outcome Memory.Store α) : Outcome (Core σ) α :=
  published (o.mapState fun memory => { c with memory })

def onAudit (c : Core σ) (o : Outcome (Audit.Engine σ) α) : Outcome (Core σ) α :=
  published (o.mapState fun audit => { c with audit })

/-! ## Memory -/

/-- Archived agents keep their memory but take no further nodes. -/
def insertMemory (c : Core σ) (agent : AgentId) (n : Memory.NewNode) (fresh : NodeId)
    (now : Instant) :
    Outcome (Core σ) NodeId :=
  match c.lifecycle.unarchived agent with
  | .error f => .refuse c f
  | .ok a => c.onMemory (c.memory.insert a.memoryRef n fresh now)

def queryMemory (c : Core σ) (agent : AgentId) (start : String) :
    Except Failure (List Memory.Node) := do
  return c.memory.query (← c.lifecycle.get agent).memoryRef start

/-- Compacting an empty memory does nothing. -/
def compactMemory (c : Core σ) (agent : AgentId) (now : Instant) :
    Outcome (Core σ) Memory.CompactionReport :=
  match c.lifecycle.get agent with
  | .error f => .refuse c f
  | .ok a =>
      if c.memory.size a.memoryRef = 0 then .ok c ⟨a.memoryRef, 0, 0, none⟩
      else c.onMemory (c.memory.compact a.memoryRef now)

/-! ## Consensus -/

def proposeUnchecked (c : Core σ) (m : Consensus.Motion) (fresh : Uuid) (now : Instant) :
    Outcome (Core σ) ProposalId :=
  c.onConsensus (c.consensus.propose c.manifest.spec.consensus m fresh now)

/-- Only for an agent that exists something can be proposed. -/
def propose (c : Core σ) (m : Consensus.Motion) (fresh : Uuid) (now : Instant) :
    Outcome (Core σ) ProposalId :=
  match c.lifecycle.get m.agent with
  | .error f => .refuse c f
  | .ok _ => c.proposeUnchecked m fresh now

/-! ## Recording -/

def recordDelivery (c : Core σ) (now : Instant) (d : EventBus.Delivery) : Core σ :=
  if d.subscription = c.auditor then { c with audit := (c.audit.record d.event now).state } else c

/-- Lets the audit engine take one event from its queue. An event that the store refuses is lost. -/
def recordNext (c : Core σ) (now : Instant) : Core σ :=
  let (bus, delivery) := c.bus.work c.auditor
  delivery.elim { c with bus } ({ c with bus }.recordDelivery now)

/-- Works off the queues of all subscriptions. -/
def settle (c : Core σ) (now : Instant) : Core σ × List EventBus.Delivery :=
  let (bus, deliveries) := c.bus.drain
  (deliveries.foldl (·.recordDelivery now) { c with bus }, deliveries)

end Core

end AgentGovernance

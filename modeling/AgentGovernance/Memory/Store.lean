import AgentGovernance.Memory.Path
import AgentGovernance.Outcome

/-!
# The memory store

The store holds a forest for each agent. A table of owners says in whose forest a node is, so a
node's id is used only once in all forests. Nodes older than the retention are pruned by compacting;
without a retention nothing is.
-/
namespace AgentGovernance

namespace Memory

/-- The name under which the store publishes. -/
def source : String := "memory"

structure Limits where
  maxContentBytes : Nat
  retention : Option Span
  deriving DecidableEq, Repr

structure CompactionReport where
  agent : AgentId
  retained : Nat
  pruned : Nat
  horizon : Option Instant
  deriving DecidableEq, Repr

instance : Codec CompactionReport where
  encode r := .record
    [("agent_id", encode r.agent), ("retained", encode r.retained), ("pruned", encode r.pruned),
     ("horizon", r.horizon.map encode)]
  decode? := Codec.readRecord do
    let agent ← Codec.required "agent_id"
    let retained ← Codec.required "retained"
    let pruned ← Codec.required "pruned"
    let horizon ← Codec.optional "horizon"
    return ⟨agent, retained, pruned, horizon⟩

structure Store where
  forests : Table AgentId Forest := ∅
  owners : Table NodeId AgentId := ∅
  limits : Limits
  deriving DecidableEq, Repr

namespace Store

def notFound (id : NodeId) : Failure := .notFound .memoryNode id.name

def forest (s : Store) (agent : AgentId) : Forest := (s.forests.find? agent).getD {}

def withForest (s : Store) (agent : AgentId) (f : Forest) : Store :=
  { s with forests := s.forests.insert agent f }

/-- The forest that holds a node. -/
def ownerForest (s : Store) (id : NodeId) : Except Failure Forest :=
  match (s.owners.find? id).bind s.forests.find? with
  | some f => .ok f
  | none => .error (notFound id)

def insertedEvent (agent : AgentId) (key : String) (n : Node) : Event where
  type := .memoryInserted
  source := source
  target := some agent.uuid.text
  payload := .object
    [("agent_id", encode agent), ("node_id", encode n.id), ("parent_id", encode n.parent),
     ("node_type", encode n.type), ("derived_key", encode key), ("hash", encode n.hash)]

def reserve (s : Store) (agent : AgentId) (id : NodeId) : Store :=
  { s with owners := s.owners.insert id agent }

def release (s : Store) (id : NodeId) : Store := { s with owners := s.owners.erase id }

/-- Reserves the id of a sealed node, then puts the node into an agent's forest, which comes into
being if there is none yet, even when the node is then refused and the id released. -/
def place (s : Store) (agent : AgentId) (n : Node) : Outcome Store NodeId :=
  if s.owners.contains n.id then .refuse s (.invalidState (.nodeExists n.id))
  else
    let reserved := s.reserve agent n.id
    let f := reserved.forest agent
    match f.insert n with
    | .error e => .refuse ((reserved.withForest agent f).release n.id) e
    | .ok grown =>
        .ok (reserved.withForest agent grown) n.id
          [insertedEvent agent ((grown.key? n.id).getD "") n]

def isOversized (s : Store) (n : NewNode) : Bool :=
  s.limits.maxContentBytes < n.content.utf8ByteSize

/-- Seals a node, under the id `fresh` if it has none, and puts it into an agent's forest. -/
def insert (s : Store) (agent : AgentId) (n : NewNode) (fresh : NodeId) (now : Instant) :
    Outcome Store NodeId :=
  if s.isOversized n then
    .refuse s
      (.constraintViolation (.contentTooLarge n.content.utf8ByteSize s.limits.maxContentBytes))
  else s.place agent (n.sealed fresh now)

def query (s : Store) (agent : AgentId) (start : String) : List Node := (s.forest agent).query start

def get (s : Store) (id : NodeId) : Except Failure Node := do
  match (← s.ownerForest id).get? id with
  | some n => return n
  | none => throw (notFound id)

def children (s : Store) (id : NodeId) : Except Failure (List Node) := do
  let f ← s.ownerForest id
  if f.contains id then return f.children id else throw (notFound id)

def size (s : Store) (agent : AgentId) : Nat := (s.forest agent).size

def agents (s : Store) : List AgentId := s.forests.keys

/-- What is published about a path that does not verify. -/
def violation (r : PathReport) : Event where
  type := .auditIntegrityViolation
  source := source
  target := some r.node.name
  payload := .object
    [("node_id", encode r.node), ("first_divergence", encode r.divergence),
     ("reason", encode r.reason)]

def verifyPath (s : Store) (id : NodeId) : Outcome Store PathReport :=
  match s.ownerForest id >>= (·.verifyPath id) with
  | .error e => .refuse s e
  | .ok r => ⟨s, if r.valid then [] else [violation r], .ok r⟩

/-- Nodes before this instant are too old; there is none when the clock cannot go back that far. -/
def horizon? (limits : Limits) (now : Instant) : Option Instant := do
  let retention ← limits.retention
  if retention.isAddable then now.shift? (-retention.nanos) else none

/-- A compaction under way: the forest it set out from and the horizon. -/
structure Compaction where
  agent : AgentId
  base : Forest
  horizon : Option Instant

def startCompaction (s : Store) (agent : AgentId) (now : Instant) : Except Failure Compaction :=
  match s.forests.find? agent with
  | none => .error (.notFound .agent agent.uuid.text)
  | some base => .ok ⟨agent, base, horizon? s.limits now⟩

def compactedEvent (r : CompactionReport) : Event where
  type := .memoryCompacted
  source := source
  target := some r.agent.uuid.text
  payload := encode r

/-- Replaces the agent's forest by the compacted one, with the nodes that came in since the start,
and gives up the ids of the pruned nodes. -/
def finishCompaction (s : Store) (c : Compaction) : Outcome Store CompactionReport :=
  let kept := (c.base.compacted c.horizon).absorbNewer c.base (s.forest c.agent)
  let isPruned (id : NodeId) : Bool := c.base.contains id && !kept.contains id
  let report : CompactionReport := ⟨c.agent, kept.size, c.base.ids.countP isPruned, c.horizon⟩
  let owners := s.owners.filter fun id owner => !(isPruned id && owner = c.agent)
  .ok { s.withForest c.agent kept with owners } report [compactedEvent report]

def compact (s : Store) (agent : AgentId) (now : Instant) : Outcome Store CompactionReport :=
  match s.startCompaction agent now with
  | .error e => .refuse s e
  | .ok c => s.finishCompaction c

end Store

end Memory

end AgentGovernance

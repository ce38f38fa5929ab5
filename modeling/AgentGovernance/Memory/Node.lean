import AgentGovernance.ContentHash

/-!
# Memory nodes

A node holds some content of an agent's memory. It may have a parent and carries a hash over all
its other fields, the parent's id included.
-/
namespace AgentGovernance

namespace Memory

/-- What a caller supplies for a node; an id is drawn for one without. -/
structure NewNode where
  id : Option NodeId
  content : String
  type : String
  metadata : Table String String := ∅
  parent : Option NodeId
  deriving DecidableEq, Repr

instance : Codec NewNode where
  encode n := .record
    [("node_id", n.id.map encode), ("content", encode n.content), ("node_type", encode n.type),
     ("metadata", encode n.metadata), ("parent_id", n.parent.map encode)]
  decode? := Codec.readRecord do
    let id ← Codec.optional "node_id"
    let content ← Codec.required "content"
    let type ← Codec.required "node_type"
    let metadata ← Codec.withDefault "metadata" ∅
    let parent ← Codec.optional "parent_id"
    return ⟨id, content, type, metadata, parent⟩

structure Node where
  id : NodeId
  content : String
  type : String
  metadata : Table String String
  parent : Option NodeId
  timestamp : Instant
  hash : ContentHash
  deriving DecidableEq, Repr

instance : Codec Node where
  encode n := .record
    [("node_id", encode n.id), ("content", encode n.content), ("node_type", encode n.type),
     ("metadata", encode n.metadata), ("parent_id", n.parent.map encode),
     ("timestamp", encode n.timestamp), ("hash", encode n.hash)]
  decode? := Codec.readRecord do
    let id ← Codec.required "node_id"
    let content ← Codec.required "content"
    let type ← Codec.required "node_type"
    let metadata ← Codec.required "metadata"
    let parent ← Codec.optional "parent_id"
    let timestamp ← Codec.required "timestamp"
    let hash ← Codec.required "hash"
    return ⟨id, content, type, metadata, parent, timestamp, hash⟩

/-- An absent parent is hashed like an empty one. -/
def Node.computeHash (id : NodeId) (content type : String) (metadata : Table String String)
    (parent : Option NodeId) (timestamp : Instant) : ContentHash :=
  .ofTexts
    [id.name, content, type, (encode metadata).compact, (parent.map NodeId.name).getD "",
     timestamp.preciseText]

def Node.recomputeHash (n : Node) : ContentHash :=
  computeHash n.id n.content n.type n.metadata n.parent n.timestamp

def Node.hashIsValid (n : Node) : Bool := n.recomputeHash = n.hash

/-- A node with its hash, under its own id or else the given one. -/
def NewNode.sealed (n : NewNode) (fresh : NodeId) (timestamp : Instant) : Node :=
  let id := n.id.getD fresh
  { id
    content := n.content
    type := n.type
    metadata := n.metadata
    parent := n.parent
    timestamp
    hash := Node.computeHash id n.content n.type n.metadata n.parent timestamp }

end Memory

end AgentGovernance

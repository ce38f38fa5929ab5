import AgentGovernance.Memory.Node

/-!
# Memory forests

A forest holds the nodes of one agent. The key of a root is its id and the key of a child is the
key of its parent, a slash and its id; ids have no slash. Keys are kept in order, so the nodes whose
keys start with some text are found together.

Compacting removes the nodes that are older than a horizon together with all their descendants.
A compaction works on a forest that may meanwhile have grown; `absorbNewer` puts the nodes that came
in between into the result, with the ancestors they need.
-/
namespace AgentGovernance

namespace Memory

structure Forest where
  stored : Table NodeId Node := ∅
  keys : Table String NodeId := ∅
  /-- The keys by the ids that have them. -/
  paths : Table NodeId String := ∅
  /-- The children of a node in order of insertion. -/
  offspring : Table NodeId (List NodeId) := ∅
  deriving DecidableEq, Repr

instance : Inhabited Forest := ⟨{}⟩

namespace Forest

def size (f : Forest) : Nat := f.stored.size

def contains (f : Forest) (id : NodeId) : Bool := f.stored.contains id

def get? (f : Forest) (id : NodeId) : Option Node := f.stored.find? id

def key? (f : Forest) (id : NodeId) : Option String := f.paths.find? id

def ids (f : Forest) : List NodeId := f.stored.keys

def childIds (f : Forest) (id : NodeId) : List NodeId := (f.offspring.find? id).getD []

def children (f : Forest) (id : NodeId) : List Node := (f.childIds id).filterMap f.get?

def isWellNamed (id : NodeId) : Bool := id.name ≠ "" && !id.name.toList.contains '/'

/-- Whether a node may be placed here, without placing it. -/
def checkInsert (f : Forest) (n : Node) : Except Failure Unit :=
  if !isWellNamed n.id then .error (.constraintViolation (.malformedNodeId n.id))
  else if f.contains n.id then .error (.invalidState (.nodeExists n.id))
  else match n.parent with
    | none => .ok ()
    | some parent =>
        if f.contains parent then .ok () else .error (.notFound .memoryNode parent.name)

def childKey (parentKey : String) (id : NodeId) : String := parentKey ++ "/" ++ id.name

/-- The key of a node that is placed under its parent. -/
def keyFor (f : Forest) (n : Node) : String :=
  match n.parent with
  | none => n.id.name
  | some parent => childKey ((f.key? parent).getD "") n.id

def addChild (f : Forest) (n : Node) : Table NodeId (List NodeId) :=
  match n.parent with
  | none => f.offspring
  | some parent => f.offspring.insert parent (f.childIds parent ++ [n.id])

def place (f : Forest) (n : Node) : Forest :=
  let key := f.keyFor n
  { stored := f.stored.insert n.id n
    keys := f.keys.insert key n.id
    paths := f.paths.insert n.id key
    offspring := f.addChild n }

def insert (f : Forest) (n : Node) : Except Failure Forest :=
  match f.checkInsert n with
  | .ok () => .ok (f.place n)
  | .error e => .error e

/-- Places a node where that is allowed and otherwise changes nothing. -/
def insertIfAllowed (f : Forest) (n : Node) : Forest :=
  match f.insert n with
  | .ok g => g
  | .error _ => f

def startsWith (start text : String) : Bool := start.toList.isPrefixOf text.toList

/-- The nodes whose keys start with a text, in order of the keys: a scan from the first key that is
not before the text up to the first that does not start with it. -/
def query (f : Forest) (start : String) : List Node :=
  let run := (f.keys.entries.dropWhile (·.1 < start)).takeWhile fun e => startsWith start e.1
  run.filterMap fun e => f.get? e.2

/-! ## Compacting -/

def nodes (f : Forest) : List Node := f.stored.values

/-- How far below its root a node stands: the number of slashes in its key. -/
def depth (f : Forest) (id : NodeId) : Nat := ((f.key? id).getD "").toList.count '/'

/-- Some nodes in order of their depth, in which a parent stands before its children. -/
def parentsFirst (f : Forest) (ns : List Node) : List Node :=
  ns.mergeSort fun m n => f.depth m.id ≤ f.depth n.id

/-- Walks through the nodes below one, over at most `steps` links. Returns those that are older
than the horizon together with all their descendants, and whether the node is one of them. -/
def visit (f : Forest) (horizon : Instant) : Nat → NodeId → List NodeId × Bool
  | 0, _ => ([], false)
  | steps + 1, id =>
      let below := (f.childIds id).map (f.visit horizon steps)
      let isStale := below.all (·.2) && (f.get? id).any (·.timestamp < horizon)
      (below.flatMap (·.1) ++ if isStale then [id] else [], isStale)

/-- The nodes of the subtrees that are older than the horizon as a whole. -/
def staleSubtrees (f : Forest) (horizon : Instant) : List NodeId :=
  (f.nodes.filter (·.parent.isNone)).flatMap fun n => (f.visit horizon f.size n.id).1

/-- The nodes that a compaction prunes; without a horizon none. -/
def prunable (f : Forest) (horizon : Option Instant) : List NodeId :=
  horizon.elim [] f.staleSubtrees

/-- The forest built again without its stale subtrees. -/
def compacted (f : Forest) (horizon : Option Instant) : Forest :=
  let prunable := f.prunable horizon
  let kept := (f.parentsFirst f.nodes).filter fun n => !prunable.contains n.id
  kept.foldl insertIfAllowed {}

/-- Inserts a node of another forest, over at most `steps` links after those of its ancestors that
are missing here. -/
def restoreWithin (source : Forest) : Nat → Forest → Node → Forest
  | 0, f, _ => f
  | steps + 1, f, n =>
      if f.contains n.id then f
      else
        let withParent :=
          match n.parent with
          | none => f
          | some parent =>
              if f.contains parent then f
              else (source.get? parent).elim f (restoreWithin source steps f)
        withParent.insertIfAllowed n

def restore (f source : Forest) (n : Node) : Forest := restoreWithin source source.size f n

/-- Restores the nodes that `current` has and `base` lacks. -/
def absorbNewer (f base current : Forest) : Forest :=
  let newer := current.nodes.filter fun n => !base.contains n.id
  (current.parentsFirst newer).foldl (restore · current) f

end Forest

end Memory

end AgentGovernance

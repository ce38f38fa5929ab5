import AgentGovernance.Memory.Forest

/-!
# Verifying a path

Verifying a node recomputes the hash of every node from it up to its root and stops at the first
that differs.
-/
namespace AgentGovernance

namespace Memory

structure PathReport where
  node : NodeId
  valid : Bool
  /-- How many hashes were recomputed. -/
  checked : Nat
  divergence : Option NodeId
  reason : Option String
  deriving DecidableEq, Repr

instance : Codec PathReport where
  encode r := .record
    [("node_id", encode r.node), ("valid", encode r.valid), ("checked", encode r.checked),
     ("first_divergence", r.divergence.map encode), ("reason", r.reason.map encode)]
  decode? := Codec.readRecord do
    let node ← Codec.required "node_id"
    let valid ← Codec.required "valid"
    let checked ← Codec.required "checked"
    let divergence ← Codec.optional "first_divergence"
    let reason ← Codec.optional "reason"
    return ⟨node, valid, checked, divergence, reason⟩

/-- A report of a divergence, as a failure. -/
def PathReport.demand (r : PathReport) : Except Failure PathReport :=
  if r.valid then .ok r
  else .error (.integrityViolation ((r.divergence.map NodeId.name).getD r.node.name)
    (r.reason.getD ""))

inductive PathFault where
  | cycle
  | hashMismatch (stored recomputed : ContentHash)
  | missingParent (parent : NodeId)
  deriving DecidableEq, Repr

def PathFault.message : PathFault → String
  | .cycle => "parent chain contains a cycle"
  | .hashMismatch stored recomputed =>
      "stored hash " ++ stored.text ++ " does not match recomputed " ++ recomputed.text
  | .missingParent parent => "parent " ++ parent.name ++ " does not resolve"

/-- The report on a walk up from a node, given what the walk has come to. -/
def PathReport.ofWalk (id : NodeId) : Nat × Option (NodeId × PathFault) → PathReport
  | (checked, none) => ⟨id, true, checked, none, none⟩
  | (checked, some (culprit, fault)) => ⟨id, false, checked, some culprit, some fault.message⟩

namespace Forest

/-- The stored nodes whose ids have not been met. -/
def unmet (f : Forest) (met : List NodeId) : List Node :=
  f.nodes.filter fun n => !met.contains n.id

theorem mem_nodes_of_get? {f : Forest} {id : NodeId} {n : Node} (h : f.get? id = some n) :
    n ∈ f.nodes := f.stored.mem_values_iff.mpr ⟨id, h⟩

theorem length_unmet_cons_lt {f : Forest} {met : List NodeId} {n : Node} (hn : n ∈ f.nodes)
    (hnew : met.contains n.id = false) : (f.unmet (n.id :: met)).length < (f.unmet met).length := by
  have hfilter : f.unmet (n.id :: met) = (f.unmet met).filter fun m => m.id ≠ n.id := by
    rw [unmet, unmet, List.filter_filter]
    refine List.filter_congr fun m _ => ?_
    simp
  rw [hfilter, List.length_filter_lt_length_iff_exists]
  exact ⟨n, List.mem_filter.mpr ⟨hn, by simpa using hnew⟩, by simp⟩

/-- Checks a node and its ancestors. The ids of the nodes from which the walk comes have been met;
one that is met again closes a cycle. The result is the number of nodes checked and the fault at
the last of them, if there is one. -/
def climb (f : Forest) (met : List NodeId) (n : Node) (_ : n ∈ f.nodes) :
    Nat × Option (NodeId × PathFault) :=
  let checked := met.length + 1
  if met.contains n.id then (checked, some (n.id, .cycle))
  else if !n.hashIsValid then (checked, some (n.id, .hashMismatch n.hash n.recomputeHash))
  else match n.parent with
    | none => (checked, none)
    | some parent =>
        match hnext : f.get? parent with
        | none => (checked, some (n.id, .missingParent parent))
        | some next => f.climb (n.id :: met) next (mem_nodes_of_get? hnext)
termination_by (f.unmet met).length
decreasing_by exact length_unmet_cons_lt ‹n ∈ f.nodes› (by simp_all)

def verifyPath (f : Forest) (id : NodeId) : Except Failure PathReport :=
  match hn : f.get? id with
  | none => .error (.notFound .memoryNode id.name)
  | some n => .ok (.ofWalk id (f.climb [] n (mem_nodes_of_get? hn)))

end Forest

end Memory

end AgentGovernance

import AgentGovernance.Request

/-!
# An execution kernel in memory

The kernel keeps a record for each running handle and answers an intent with the intent itself and
the number of executions under that handle. While it is offline every call fails.
-/
namespace AgentGovernance

structure Kernel.Instance where
  constraints : AgentConstraints
  executions : UInt64 := 0
  deriving DecidableEq, Repr

open Kernel in
structure Kernel where
  instances : Table KernelHandle Instance := ∅
  snapshots : Table KernelSnapshot Instance := ∅
  isOffline : Bool := false
  totalExecutions : UInt64 := 0

namespace Kernel

def reach (k : Kernel) : Except KernelError Unit :=
  if k.isOffline then .error (.unreachable "in-memory kernel is offline") else .ok ()

def lookup (k : Kernel) (handle : KernelHandle) : Except KernelError Instance :=
  match k.instances.find? handle with
  | some i => .ok i
  | none => .error (.handleNotFound handle.name)

def isRunning (k : Kernel) (handle : KernelHandle) : Bool := k.instances.contains handle

def runningCount (k : Kernel) : Nat := k.instances.size

def withInstance (k : Kernel) (handle : KernelHandle) (i : Instance) : Kernel :=
  { k with instances := k.instances.insert handle i }

def handleOf (fresh : Uuid) : KernelHandle := ⟨"kernel-" ++ fresh.text⟩

def spawn (k : Kernel) (constraints : AgentConstraints) (fresh : Uuid) :
    Except KernelError (Kernel × KernelHandle) := do
  k.reach
  return (k.withInstance (handleOf fresh) { constraints }, handleOf fresh)

/-- The end of an execution, for a kernel that could be reached when it began. -/
def execute (k : Kernel) (handle : KernelHandle) (intent : String) (params : Json) :
    Except KernelError (Kernel × Json) := do
  let i ← k.lookup handle
  let sequence := i.executions + 1
  let k := { k.withInstance handle { i with executions := sequence } with
    totalExecutions := k.totalExecutions + 1 }
  return (k, .object [("handle", encode handle), ("intent", encode intent), ("params", params),
    ("sequence", encode sequence)])

def snapshot (k : Kernel) (handle : KernelHandle) (fresh : Uuid) :
    Except KernelError (Kernel × KernelSnapshot) := do
  k.reach
  let i ← k.lookup handle
  let name : KernelSnapshot := ⟨"ksnap-" ++ fresh.text⟩
  return ({ k with snapshots := k.snapshots.insert name i }, name)

def recover (k : Kernel) (snapshot : KernelSnapshot) (fresh : Uuid) :
    Except KernelError (Kernel × KernelHandle) := do
  k.reach
  match k.snapshots.find? snapshot with
  | none => throw (.recoverFailed ("unknown snapshot " ++ snapshot.name))
  | some i => return (k.withInstance (handleOf fresh) i, handleOf fresh)

def terminate (k : Kernel) (handle : KernelHandle) : Except KernelError Kernel := do
  k.reach
  let _ ← k.lookup handle
  return { k with instances := k.instances.erase handle }

end Kernel

end AgentGovernance

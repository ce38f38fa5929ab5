import AgentGovernance.Kernel
import AgentGovernance.Registry
import AgentGovernance.Sandbox

/-!
# The bench

A simulated core works with a kernel, a sandbox and a registry that take their time. Time is counted
in ticks of a millisecond. A request to the kernel or the sandbox waits before and after it is
served, and its next call may be made to fail; serving an execution or a judgement takes time too.
-/
namespace AgentGovernance

/-- The name of the call a request makes. -/
def Request.service : Request → String
  | .spawn _ => "spawn"
  | .execute _ _ _ => "execute"
  | .snapshot _ => "snapshot"
  | .recover _ => "recover"
  | .terminate _ => "terminate"
  | .attach _ _ => "attach"
  | .judge _ _ => "judge"

/-- Whether serving a request draws an id. -/
def Request.isNaming : Request → Bool
  | .spawn _ | .snapshot _ | .recover _ => true
  | _ => false

def Request.isServed : (r : Request) → r.Reply → Bool
  | .spawn _, reply => reply.isOk
  | .execute _ _ _, reply => reply.isOk
  | .snapshot _, reply => reply.isOk
  | .recover _, reply => reply.isOk
  | .terminate _, reply => reply.isOk
  | .attach _ _, reply => reply.isOk
  | .judge _ _, reply => reply.isOk

namespace Simulation

structure Bench where
  kernel : Kernel := {}
  sandbox : Sandbox := {}
  registry : Registry := {}
  executionTime : Nat := 0
  judgementTime : Nat := 0
  waitsBefore : Table String Nat := ∅
  waitsAfter : Table String Nat := ∅
  /-- With what the next call of a service fails. -/
  kernelFaults : Table String KernelError := ∅
  sandboxFault : Option SandboxError := none

namespace Bench

def waitBefore (b : Bench) (r : Request) : Nat := (b.waitsBefore.find? r.service).getD 0

def waitAfter (b : Bench) (r : Request) : Nat := (b.waitsAfter.find? r.service).getD 0

def kernelServices : List String := ["spawn", "execute", "snapshot", "recover", "terminate"]

/-- Makes the next call of a service fail with an error of a kind. -/
def failNext? (b : Bench) (service kind text : String) : Option Bench :=
  if service = "attach" then
    (SandboxError.ofKind? kind text).map fun e => { b with sandboxFault := some e }
  else if kernelServices.contains service then
    (KernelError.ofKind? kind text).map fun e =>
      { b with kernelFaults := b.kernelFaults.insert service e }
  else none

/-- Uses up the fault of a kernel service. -/
def kernelFault? {α : Type} (b : Bench) (service : String) :
    Option (Bench × Except KernelError α) :=
  (b.kernelFaults.find? service).map fun e =>
    ({ b with kernelFaults := b.kernelFaults.erase service }, .error e)

/-- The failing reply to a request that was made to fail. -/
def fault? (b : Bench) : (r : Request) → Option (Bench × r.Reply)
  | .spawn _ => b.kernelFault? "spawn"
  | .execute _ _ _ => b.kernelFault? "execute"
  | .snapshot _ => b.kernelFault? "snapshot"
  | .recover _ => b.kernelFault? "recover"
  | .terminate _ => b.kernelFault? "terminate"
  | .attach _ _ => b.sandboxFault.map fun e => ({ b with sandboxFault := none }, .error e)
  | .judge _ _ => none

/-- The reply to an execution that a kernel refuses at once, or else the time until a request is
served. -/
def receive (b : Bench) : (r : Request) → r.Reply ⊕ Nat
  | .execute _ _ _ =>
      match b.kernel.reach with
      | .error e => .inl (.error e)
      | .ok () => .inr b.executionTime
  | .judge _ _ => .inr b.judgementTime
  | _ => .inr 0

def withKernel {α : Type} (b : Bench) :
    Except KernelError (Kernel × α) → Bench × Except KernelError α
  | .ok (kernel, a) => ({ b with kernel }, .ok a)
  | .error e => (b, .error e)

def serve (b : Bench) (fresh : Uuid) (now : Instant) : (r : Request) → Bench × r.Reply
  | .spawn constraints => b.withKernel (b.kernel.spawn constraints fresh)
  | .execute handle intent params => b.withKernel (b.kernel.execute handle intent params)
  | .snapshot handle => b.withKernel (b.kernel.snapshot handle fresh)
  | .recover snapshot => b.withKernel (b.kernel.recover snapshot fresh)
  | .terminate handle => b.withKernel ((b.kernel.terminate handle).map (·, ()))
  | .attach handle plugin =>
      match b.sandbox.attach handle plugin with
      | .ok (sandbox, capabilities) => ({ b with sandbox }, .ok capabilities)
      | .error e => (b, .error e)
  | .judge agreement action => (b, b.registry.judge agreement action now)

end Bench

end Simulation

end AgentGovernance

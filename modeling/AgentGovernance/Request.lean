import AgentGovernance.Agent
import AgentGovernance.Agreement
import AgentGovernance.Failure

/-!
# Requests to collaborators

The core leaves the running of agents to an execution kernel, their plugins to a sandbox, and the
judging of actions to a policy authority. A request names one call of one of the three; its reply
has a type that depends on the request. An operation of the core that has to wait for a reply is
suspended until the reply is there.
-/
namespace AgentGovernance

inductive Request where
  | spawn (constraints : AgentConstraints)
  | execute (handle : KernelHandle) (intent : String) (params : Json)
  | snapshot (handle : KernelHandle)
  | recover (snapshot : KernelSnapshot)
  | terminate (handle : KernelHandle)
  | attach (handle : KernelHandle) (plugin : PluginId)
  | judge (agreement : AgreementRef) (action : String)
  deriving Repr

namespace Request

abbrev Reply : Request → Type
  | .spawn _ => Except KernelError KernelHandle
  | .execute _ _ _ => Except KernelError Json
  | .snapshot _ => Except KernelError KernelSnapshot
  | .recover _ => Except KernelError KernelHandle
  | .terminate _ => Except KernelError Unit
  | .attach _ _ => Except SandboxError (List String)
  | .judge _ _ => Except PolicyError Decision

end Request

end AgentGovernance

import AgentGovernance.Request

/-!
# A plugin sandbox in memory

Only registered plugins can be attached. An attached plugin gets the capabilities it is registered
with, and a handle keeps its plugins in the order in which they were first attached.
-/
namespace AgentGovernance

structure Sandbox where
  plugins : Table PluginId (List String) := ∅
  attachments : Table KernelHandle (List PluginId) := ∅

namespace Sandbox

def register (s : Sandbox) (plugin : PluginId) (capabilities : List String) : Sandbox :=
  { s with plugins := s.plugins.insert plugin capabilities }

def attached (s : Sandbox) (handle : KernelHandle) : List PluginId :=
  (s.attachments.find? handle).getD []

def attach (s : Sandbox) (handle : KernelHandle) (plugin : PluginId) :
    Except SandboxError (Sandbox × List String) :=
  match s.plugins.find? plugin with
  | none => .error (.pluginNotFound plugin.name)
  | some capabilities =>
      let attached := s.attached handle
      let attached := if attached.contains plugin then attached else attached ++ [plugin]
      .ok ({ s with attachments := s.attachments.insert handle attached }, capabilities)

end Sandbox

end AgentGovernance

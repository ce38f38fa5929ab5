import AgentGovernance.Request

/-!
# The agreement registry

The registry judges an action by a registered agreement. It recomputes the agreement's hash first,
so an agreement that was edited after its issue is refused.
-/
namespace AgentGovernance

structure Registry where
  agreements : Table AgreementRef Agreement := ∅
  isOffline : Bool := false

namespace Registry

/-- Registers an agreement, over the one with its id if there is one. -/
def register (r : Registry) (a : Agreement) : Registry :=
  { r with agreements := r.agreements.insert a.id a }

def get? (r : Registry) (agreement : AgreementRef) : Option Agreement :=
  r.agreements.find? agreement

/-- Removes an agreement and says whether there was one. -/
def revoke (r : Registry) (agreement : AgreementRef) : Registry × Bool :=
  ({ r with agreements := r.agreements.erase agreement }, r.agreements.contains agreement)

def judge (r : Registry) (agreement : AgreementRef) (action : String) (now : Instant) :
    Except PolicyError Decision :=
  if r.isOffline then .error (.unavailable "agreement registry is offline")
  else match r.get? agreement with
    | none => .error (.unknownAgreement agreement)
    | some a =>
        if a.isConsistent then .ok (a.evaluate action now) else .error (.hashMismatch agreement)

end Registry

end AgentGovernance

import AgentGovernance.Identity
import AgentGovernance.Vocabulary
import AgentGovernance.Time.Span

/-!
# Failures

Every refused operation ends in a `Failure`. The collaborators of the core have failures of their
own, which a caller of the core sees as violated constraints or, from the trace store, as a failed
storage. Causes are constructors; `message` holds the wording and `kind` the name of the cause.
-/
namespace AgentGovernance

inductive KernelError where
  | spawnFailed (why : String)
  | executionFailed (why : String)
  | snapshotFailed (why : String)
  | recoverFailed (why : String)
  | terminationFailed (why : String)
  | handleNotFound (handle : String)
  | unreachable (why : String)
  deriving DecidableEq, Repr

def KernelError.message : KernelError → String
  | .spawnFailed why => "Failed to spawn agent: " ++ why
  | .executionFailed why => "Failed to execute intent: " ++ why
  | .snapshotFailed why => "Failed to snapshot agent: " ++ why
  | .recoverFailed why => "Failed to recover snapshot: " ++ why
  | .terminationFailed why => "Failed to terminate agent: " ++ why
  | .handleNotFound handle => "Kernel handle not found: " ++ handle
  | .unreachable why => "Kernel unreachable: " ++ why

/-- The error of a kind, given the text it holds. -/
def KernelError.ofKind? (kind text : String) : Option KernelError :=
  match kind with
  | "SpawnFailed" => some (.spawnFailed text)
  | "ExecutionFailed" => some (.executionFailed text)
  | "SnapshotFailed" => some (.snapshotFailed text)
  | "RecoverFailed" => some (.recoverFailed text)
  | "TerminationFailed" => some (.terminationFailed text)
  | "HandleNotFound" => some (.handleNotFound text)
  | "Unreachable" => some (.unreachable text)
  | _ => none

inductive SandboxError where
  | pluginNotFound (plugin : String)
  | rejected (why : String)
  | unavailable (why : String)
  deriving DecidableEq, Repr

def SandboxError.message : SandboxError → String
  | .pluginNotFound plugin => "Plugin not found: " ++ plugin
  | .rejected why => "Plugin rejected: " ++ why
  | .unavailable why => "Sandbox unavailable: " ++ why

def SandboxError.ofKind? (kind text : String) : Option SandboxError :=
  match kind with
  | "PluginNotFound" => some (.pluginNotFound text)
  | "Rejected" => some (.rejected text)
  | "SandboxUnavailable" => some (.unavailable text)
  | _ => none

inductive PolicyError where
  | unknownAgreement (agreement : AgreementRef)
  | hashMismatch (agreement : AgreementRef)
  | unavailable (why : String)
  deriving DecidableEq, Repr

def PolicyError.message : PolicyError → String
  | .unknownAgreement agreement => "Unknown agreement: " ++ agreement.name
  | .hashMismatch agreement => "Agreement hash mismatch for " ++ agreement.name
  | .unavailable why => "Policy authority unavailable: " ++ why

def PolicyError.ofKind? (kind text : String) : Option PolicyError :=
  match kind with
  | "UnknownAgreement" => some (.unknownAgreement ⟨text⟩)
  | "HashMismatch" => some (.hashMismatch ⟨text⟩)
  | "PolicyUnavailable" => some (.unavailable text)
  | _ => none

/-- A proof system could not attest, or a proof does not hold. -/
structure ProofError where
  why : String
  deriving DecidableEq, Repr

def ProofError.message (e : ProofError) : String := "Proof scheme failure: " ++ e.why

inductive StoreError where
  | io (why : String)
  | undecodable (why : String)
  | outOfOrder (expected actual : Nat)
  deriving DecidableEq, Repr

def StoreError.message : StoreError → String
  | .io why => "Trace store I/O failure: " ++ why
  | .undecodable why => "Trace entry could not be decoded: " ++ why
  | .outOfOrder expected actual =>
      "Out-of-order append: expected trace id " ++ toString expected ++ ", got " ++ toString actual

def StoreError.kind : StoreError → String
  | .io _ => "Io"
  | .undecodable _ => "Codec"
  | .outOfOrder _ _ => "OutOfOrder"

def StoreError.ofKind? (kind text : String) : Option StoreError :=
  match kind with
  | "Io" => some (.io text)
  | "Codec" => some (.undecodable text)
  | _ => none

inductive BusError where
  | closed
  | nothingQueued
  | lagged (missed : Nat)
  | noRuntime
  deriving DecidableEq, Repr

def BusError.message : BusError → String
  | .closed => "Event bus is closed"
  | .nothingQueued => "No events available"
  | .lagged missed => "Receiver lagged by " ++ toString missed ++ " events (events were dropped)"
  | .noRuntime => "No Tokio runtime available to run the subscription worker"

def BusError.kind : BusError → String
  | .closed => "Closed"
  | .nothingQueued => "Empty"
  | .lagged _ => "Lagged"
  | .noRuntime => "NoRuntime"

/-- Why an operation does not fit the state of what it is about. -/
inductive Conflict where
  | agentNotActive (agent : AgentId) (status : AgentStatus)
  | agentNotPaused (agent : AgentId) (status : AgentStatus)
  | agentArchived (agent : AgentId)
  | notVoting (proposal : ProposalId) (state : ProposalState)
  | voteElsewhere (target proposal : ProposalId)
  | noTransition (proposal : ProposalId) (source target current : ProposalState)
  | notCommittable (proposal : ProposalId) (state : ProposalState)
  | nodeExists (node : NodeId)
  | stated (text : String)
  deriving DecidableEq, Repr

def Conflict.message : Conflict → String
  | .agentNotActive agent status => s!"agent {agent} is " ++ status.name ++ ", expected active"
  | .agentNotPaused agent status => s!"agent {agent} is " ++ status.name ++ ", expected paused"
  | .agentArchived agent => s!"agent {agent} is archived"
  | .notVoting proposal state =>
      s!"proposal {proposal} is " ++ state.name ++ ", votes are only accepted while Voting"
  | .voteElsewhere target proposal => s!"vote targets proposal {target}, not {proposal}"
  | .noTransition proposal source target current =>
      s!"proposal {proposal} cannot move " ++ source.name ++ " -> " ++ target.name ++
        " (currently " ++ current.name ++ ")"
  | .notCommittable proposal state =>
      s!"proposal {proposal} is " ++ state.name ++ ", only Voting proposals can be committed"
  | .nodeExists node => "memory node " ++ node.name ++ " already exists"
  | .stated text => text

/-- Which rule or collaborator an operation ran into. -/
inductive Violation where
  | kernel (e : KernelError)
  | sandbox (e : SandboxError)
  | policy (e : PolicyError)
  | proof (e : ProofError)
  | notCompliant (reason : String)
  | intentNotAllowed (intent : String) (agent : AgentId)
  | contentTooLarge (size limit : Nat)
  | malformedNodeId (node : NodeId)
  | timeoutOutOfRange (timeout : Span)
  | timeoutBeyondCalendar
  | stated (text : String)
  deriving DecidableEq, Repr

def Violation.message : Violation → String
  | .kernel e => "kernel: " ++ e.message
  | .sandbox e => "sandbox: " ++ e.message
  | .policy e => "policy: " ++ e.message
  | .proof e => e.message
  | .notCompliant reason => reason
  | .intentNotAllowed intent agent => "intent '" ++ intent ++ s!"' is not allowed for agent {agent}"
  | .contentTooLarge size limit => s!"memory content of {size} bytes exceeds limit of {limit} bytes"
  | .malformedNodeId node =>
      "node id '" ++ node.name ++ "' must be non-empty and must not contain '/'"
  | .timeoutOutOfRange timeout => "proposal timeout " ++ timeout.decimalText ++ " is out of range"
  | .timeoutBeyondCalendar => "proposal timeout overflows the clock"
  | .stated text => text

/-- How a deadline was missed. -/
inductive Lateness where
  | beforeStart
  | whileRunning
  deriving DecidableEq, Repr

inductive TimedOut where
  | missed (operation : String) (lateness : Lateness)
  | stated (text : String)
  deriving DecidableEq, Repr

def TimedOut.message : TimedOut → String
  | .missed operation .beforeStart => operation ++ ": deadline already passed"
  | .missed operation .whileRunning => operation ++ ": deadline exceeded"
  | .stated text => text

inductive Failure where
  | notFound (resource : Resource) (id : String)
  | invalidState (conflict : Conflict)
  | quorumNotReached (approve required : UInt64)
  | expired (proposal : String)
  | constraintViolation (violation : Violation)
  | integrityViolation (divergence reason : String)
  | timeout (missed : TimedOut)
  | storage (why : String)
  deriving DecidableEq, Repr

namespace Failure

def message : Failure → String
  | .notFound resource id => resource.name ++ " not found: " ++ id
  | .invalidState conflict => "Invalid state: " ++ conflict.message
  | .quorumNotReached approve required =>
      s!"Quorum not reached: approve weight {approve} < required {required}"
  | .expired proposal => "Proposal expired: " ++ proposal
  | .constraintViolation violation => "Constraint violation: " ++ violation.message
  | .integrityViolation divergence reason =>
      "Integrity violation at " ++ divergence ++ ": " ++ reason
  | .timeout missed => "Operation timed out: " ++ missed.message
  | .storage why => "Storage failure: " ++ why

/-- The name of the kind of failure. -/
def kind : Failure → String
  | .notFound _ _ => "NotFound"
  | .invalidState _ => "InvalidState"
  | .quorumNotReached _ _ => "QuorumNotReached"
  | .expired _ => "Expired"
  | .constraintViolation _ => "ConstraintViolation"
  | .integrityViolation _ _ => "IntegrityViolation"
  | .timeout _ => "Timeout"
  | .storage _ => "Storage"

/-- The failure of a kind that needs no more than a text. -/
def ofKind? (kind text : String) : Option Failure :=
  match kind with
  | "InvalidState" => some (.invalidState (.stated text))
  | "Expired" => some (.expired text)
  | "ConstraintViolation" => some (.constraintViolation (.stated text))
  | "Timeout" => some (.timeout (.stated text))
  | "Storage" => some (.storage text)
  | _ => none

def ofKernel (e : KernelError) : Failure := .constraintViolation (.kernel e)

def ofSandbox (e : SandboxError) : Failure := .constraintViolation (.sandbox e)

def ofPolicy (e : PolicyError) : Failure := .constraintViolation (.policy e)

def ofProof (e : ProofError) : Failure := .constraintViolation (.proof e)

def ofStore (e : StoreError) : Failure := .storage e.message

end Failure

end AgentGovernance

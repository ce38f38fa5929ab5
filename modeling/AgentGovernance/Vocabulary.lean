/-!
# Closed vocabularies

The states, decisions and event types the library distinguishes, each with its wire name. Reading
a name is searching the list of all values for it.
-/
namespace AgentGovernance

inductive AgentStatus where
  | active
  | paused
  | archived
  deriving DecidableEq, Repr

namespace AgentStatus

def all : List AgentStatus := [.active, .paused, .archived]

def name : AgentStatus → String
  | .active => "active"
  | .paused => "paused"
  | .archived => "archived"

end AgentStatus

inductive VoteDecision where
  | approve
  | reject
  | abstain
  deriving DecidableEq, Repr

namespace VoteDecision

def all : List VoteDecision := [.approve, .reject, .abstain]

def name : VoteDecision → String
  | .approve => "approve"
  | .reject => "reject"
  | .abstain => "abstain"

end VoteDecision

inductive ProposalState where
  | proposed
  | voting
  | committed
  | rejected
  | expired
  deriving DecidableEq, Repr

namespace ProposalState

def all : List ProposalState := [.proposed, .voting, .committed, .rejected, .expired]

def name : ProposalState → String
  | .proposed => "Proposed"
  | .voting => "Voting"
  | .committed => "Committed"
  | .rejected => "Rejected"
  | .expired => "Expired"

/-- Nothing leaves a terminal state. -/
def isTerminal : ProposalState → Bool
  | .committed | .rejected | .expired => true
  | .proposed | .voting => false

end ProposalState

inductive EventType where
  | agentSpawned
  | agentPluginAttached
  | agentExecuted
  | agentSnapshotted
  | agentRecovered
  | agentTerminated
  | agentPaused
  | agentResumed
  | consensusProposed
  | consensusVoted
  | consensusCommitted
  | consensusRejected
  | consensusExpired
  | memoryInserted
  | memoryCompacted
  | auditIntegrityViolation
  deriving DecidableEq, Repr

namespace EventType

def all : List EventType :=
  [.agentSpawned, .agentPluginAttached, .agentExecuted, .agentSnapshotted, .agentRecovered,
   .agentTerminated, .agentPaused, .agentResumed, .consensusProposed, .consensusVoted,
   .consensusCommitted, .consensusRejected, .consensusExpired, .memoryInserted, .memoryCompacted,
   .auditIntegrityViolation]

def name : EventType → String
  | .agentSpawned => "agent.spawned"
  | .agentPluginAttached => "agent.plugin.attached"
  | .agentExecuted => "agent.executed"
  | .agentSnapshotted => "agent.snapshotted"
  | .agentRecovered => "agent.recovered"
  | .agentTerminated => "agent.terminated"
  | .agentPaused => "agent.paused"
  | .agentResumed => "agent.resumed"
  | .consensusProposed => "consensus.proposed"
  | .consensusVoted => "consensus.voted"
  | .consensusCommitted => "consensus.committed"
  | .consensusRejected => "consensus.rejected"
  | .consensusExpired => "consensus.expired"
  | .memoryInserted => "memory.inserted"
  | .memoryCompacted => "memory.compacted"
  | .auditIntegrityViolation => "audit.integrity_violation"

def ofName? (name : String) : Option EventType := all.find? (·.name = name)

end EventType

/-- The kinds of things a failed look-up names. -/
inductive Resource where
  | agent
  | snapshot
  | proposal
  | commitment
  | memoryNode
  | traceEntry
  | agreement
  deriving DecidableEq, Repr

namespace Resource

def all : List Resource :=
  [.agent, .snapshot, .proposal, .commitment, .memoryNode, .traceEntry, .agreement]

def name : Resource → String
  | .agent => "agent"
  | .snapshot => "snapshot"
  | .proposal => "proposal"
  | .commitment => "commitment"
  | .memoryNode => "memory node"
  | .traceEntry => "trace entry"
  | .agreement => "agreement"

end Resource

end AgentGovernance

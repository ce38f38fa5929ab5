import AgentGovernance.Agent
import AgentGovernance.Agreement
import AgentGovernance.Alphabet
import AgentGovernance.Audit
import AgentGovernance.Bytes
import AgentGovernance.Commitment
import AgentGovernance.Config.Loading
import AgentGovernance.Config.LogFilter
import AgentGovernance.Config.Manifest
import AgentGovernance.Config.Pattern
import AgentGovernance.Config.Source
import AgentGovernance.Config.Yaml.Cursor
import AgentGovernance.Config.Yaml.Document
import AgentGovernance.Config.Yaml.Lexer
import AgentGovernance.Config.Yaml.Plain
import AgentGovernance.Config.Yaml.Property
import AgentGovernance.Config.Yaml.Scalar
import AgentGovernance.Config.Yaml.Token
import AgentGovernance.Config.Yaml.Value
import AgentGovernance.Config.Yaml.Writer
import AgentGovernance.Consensus
import AgentGovernance.ContentHash
import AgentGovernance.Core
import AgentGovernance.Digest.Sha2
import AgentGovernance.Digits
import AgentGovernance.Event
import AgentGovernance.EventBus
import AgentGovernance.Failure
import AgentGovernance.Identity
import AgentGovernance.Json.Basic
import AgentGovernance.Json.Codec
import AgentGovernance.Json.Reader
import AgentGovernance.Json.Skim
import AgentGovernance.Kernel
import AgentGovernance.Lifecycle
import AgentGovernance.Memory.Forest
import AgentGovernance.Memory.Node
import AgentGovernance.Memory.Path
import AgentGovernance.Memory.Store
import AgentGovernance.Number
import AgentGovernance.Outcome
import AgentGovernance.Proof
import AgentGovernance.Proposal
import AgentGovernance.Registry
import AgentGovernance.Request
import AgentGovernance.Sandbox
import AgentGovernance.Signature
import AgentGovernance.Simulation.Bench
import AgentGovernance.Simulation.Session
import AgentGovernance.Table
import AgentGovernance.Time.Instant
import AgentGovernance.Time.Reader
import AgentGovernance.Time.Span
import AgentGovernance.Trace.Backend
import AgentGovernance.Trace.Edit
import AgentGovernance.Trace.Entry
import AgentGovernance.Trace.Replay
import AgentGovernance.Trace.Store
import AgentGovernance.Trace.Tampering
import AgentGovernance.Vocabulary
import AgentGovernance.Proofs.Consensus.Move
import AgentGovernance.Proofs.Consensus.Commitments
import AgentGovernance.Proofs.Consensus.Terminal
import AgentGovernance.Proofs.Json.Reading
import AgentGovernance.Proofs.Json.Skimming
import AgentGovernance.Proofs.Time.Calendar
import AgentGovernance.Proofs.Time.Reading
import AgentGovernance.Proofs.Trace.Chain
import AgentGovernance.Proofs.Trace.Record
import AgentGovernance.Proofs.Trace.Stores
import AgentGovernance.Proofs.Audit.Run
import AgentGovernance.Proofs.Audit.Verification
import AgentGovernance.Proofs.Audit.Recording
import AgentGovernance.Proofs.Hexadecimal
import AgentGovernance.Proofs.Identity
import AgentGovernance.Proofs.Framing
import AgentGovernance.Proofs.Trace.Binding
import AgentGovernance.Proofs.Trace.Replaying
import AgentGovernance.Proofs.Audit.Tampering
import AgentGovernance.Proofs.Memory.Growth
import AgentGovernance.Proofs.Memory.Descent
import AgentGovernance.Proofs.Memory.Pruning
import AgentGovernance.Proofs.Memory.Absorption
import AgentGovernance.Proofs.Consensus.Expiry
import AgentGovernance.Proofs.Kernel
import AgentGovernance.Proofs.Lifecycle.Accounting
import AgentGovernance.Proofs.Lifecycle.Archive
import AgentGovernance.Proofs.Audit.Export
import AgentGovernance.Proofs.Trace.TailHash
import AgentGovernance.Proofs.Memory.Consistency
import AgentGovernance.Proofs.Memory.Ownership
import AgentGovernance.Proofs.Memory.Verification
import AgentGovernance.Proofs.Json.Fields
import AgentGovernance.Proofs.Lifecycle.Chronicle
import AgentGovernance.Proofs.Consensus.Word
import AgentGovernance.Proofs.Consensus.Advance
import AgentGovernance.Proofs.Consensus.Minutes
import AgentGovernance.Proofs.Consensus.Sweeping
import AgentGovernance.Proofs.Lifecycle.Running
import AgentGovernance.Proofs.Lifecycle.Attachments
import AgentGovernance.Proofs.Trace.Contract
import AgentGovernance.Proofs.Trace.Shelf
import AgentGovernance.Proofs.Core.Run
import AgentGovernance.Proofs.Core.Mirror
import AgentGovernance.Proofs.Trace.Faults
import AgentGovernance.Proofs.Audit.Failures
import AgentGovernance.Proofs.Audit.TornWrite
import AgentGovernance.Proofs.Memory.Refusal
import AgentGovernance.Proofs.Lifecycle.Refusal
import AgentGovernance.Proofs.Consensus.Refusal
import AgentGovernance.Proofs.Core.Refusal
import AgentGovernance.Proofs.EventBus.Delivery
import AgentGovernance.Proofs.Consensus.Verdict
import AgentGovernance.Proofs.Lifecycle.Permission
import AgentGovernance.Proofs.Lifecycle.Lineage
import AgentGovernance.Proofs.Attestation
import AgentGovernance.Proofs.Consensus.Verification
import AgentGovernance.Proofs.Consensus.Thresholds
import AgentGovernance.Proofs.Consensus.Roll
import AgentGovernance.Proofs.Consensus.LastVotes
import AgentGovernance.Proofs.Consensus.Binding
import AgentGovernance.Proofs.Time.Writing
import AgentGovernance.Proofs.Agreement
import AgentGovernance.Proofs.Json.Rendering
import AgentGovernance.Proofs.Memory.Binding
import AgentGovernance.Proofs.Trace.Alteration
import AgentGovernance.Proofs.Trace.Overflow
import AgentGovernance.Proofs.Trace.Anchoring
import AgentGovernance.Proofs.Trace.Neighbours
import AgentGovernance.Proofs.Audit.Divergence
import AgentGovernance.Proofs.Audit.Checkpoints
import AgentGovernance.Proofs.Memory.Compaction
import AgentGovernance.Proofs.ByteOrder
import AgentGovernance.Proofs.Memory.Query
import AgentGovernance.Proofs.Memory.Subtree
import AgentGovernance.Proofs.Memory.Descendants
import AgentGovernance.Proofs.Memory.Ascent
import AgentGovernance.Proofs.Consensus.Shortfall
import AgentGovernance.Proofs.Simulation.Execution
import AgentGovernance.Proofs.Json.Canonical
import AgentGovernance.Proofs.ContentHash

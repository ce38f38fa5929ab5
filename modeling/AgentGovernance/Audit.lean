import AgentGovernance.Outcome
import AgentGovernance.Trace.Replay
import AgentGovernance.Trace.Store

/-!
# The audit engine

The engine records every event as an entry of the chain. An entry is stamped with the time of its
arrival, but never earlier than its predecessor, so the entries of a span of time are neighbours.
Every so many entries the engine keeps a checkpoint; verifying an entry starts at the last
checkpoint before it. Checkpoints are not stored and start anew when the engine is opened again.
-/
namespace AgentGovernance

namespace Audit

open Trace

/-- The name under which the engine publishes. -/
def source : String := "audit"

structure Engine (σ : Type) where
  store : σ
  /-- The newest entry, or the genesis checkpoint of an empty chain. -/
  head : Checkpoint := .genesis
  stampedAt : Option Instant := none
  checkpoints : Table Nat ContentHash := ∅
  /-- How many entries those who wait have been told of. -/
  progress : Nat := 0
  /-- How many entries lie between two checkpoints; no checkpoints are kept when it is zero. -/
  interval : Nat

variable {σ : Type} [Store σ]

namespace Engine

/-- Takes up the chain where the store ends. -/
def open? (store : σ) (interval : Nat) : Except Failure (Engine σ) :=
  match Store.last store with
  | .error e => .error (.ofStore e)
  | .ok none => .ok { store, interval }
  | .ok (some e) =>
      .ok
        { store, interval, head := ⟨e.id, e.hash⟩, stampedAt := some e.timestamp, progress := e.id }

def size (a : Engine σ) : Nat := a.head.id

/-- The current time, or the stamp of the newest entry where that is later. -/
def nextStamp (a : Engine σ) (now : Instant) : Instant := a.stampedAt.elim now now.latest

def isCheckpoint (interval id : Nat) : Bool := 0 < interval && id % interval = 0

def nextEntry (a : Engine σ) (event : Event) (now : Instant) : Entry :=
  .sealed (a.head.id + 1) event.type event.source event.target (.ofJson event.payload) a.head.hash
    (a.nextStamp now)

/-- Appends an event to the chain. When the store fails, the engine stays as it was. -/
def record (a : Engine σ) (event : Event) (now : Instant) : Outcome (Engine σ) Entry :=
  let entry := a.nextEntry event now
  match Store.append a.store entry with
  | (store, .error e) => .refuse { a with store } (.ofStore e)
  | (store, .ok ()) =>
      let checkpoints :=
        if isCheckpoint a.interval entry.id then a.checkpoints.insert entry.id entry.hash
        else a.checkpoints
      .ok
        { a with
          store, head := ⟨entry.id, entry.hash⟩, stampedAt := some entry.timestamp, checkpoints
          progress := entry.id }
        entry

def notFound (id : Nat) : Failure := .notFound .traceEntry (toString id)

def entry (a : Engine σ) (id : Nat) : Except Failure Entry :=
  match Store.get a.store id with
  | .error e => .error (.ofStore e)
  | .ok none => .error (notFound id)
  | .ok (some e) => .ok e

def checkpointList (a : Engine σ) : List Checkpoint :=
  a.checkpoints.entries.map fun (id, hash) => ⟨id, hash⟩

/-- The last checkpoint before an entry, or genesis. -/
def anchor (a : Engine σ) (id : Nat) : Checkpoint :=
  ((a.checkpointList.takeWhile (·.id < id)).getLast?).getD .genesis

/-- The first divergence of the entries that should lead from an anchor to the entry `id`. -/
def divergence? (anchor : Checkpoint) (id : Nat) (entries : List Entry) : Option Divergence :=
  match follow (anchor.id + 1) anchor.hash entries with
  | .error d => some d
  | .ok (next, _) => if next = id + 1 then none else some ⟨next, .missing next⟩

def report (anchor : Checkpoint) (id : Nat) (entries : List Entry) : Report :=
  match divergence? anchor id entries with
  | none => ⟨id, true, anchor.id, id - anchor.id, none, none⟩
  | some d => ⟨id, false, anchor.id, d.id - anchor.id, some d.id, some d.fault.message⟩

/-- What is published about a report of a broken chain. -/
def violation (r : Report) : Event where
  type := .auditIntegrityViolation
  source := source
  target := some (toString r.id)
  payload := .object
    [("trace_id", encode r.id), ("first_divergence", encode r.divergence),
     ("reason", encode r.reason)]

/-- Recomputes the chain up to an entry from the last checkpoint before it. -/
def verify (a : Engine σ) (id : Nat) : Outcome (Engine σ) Report :=
  if id = 0 ∨ a.size < id then .refuse a (notFound id)
  else
    let anchor := a.anchor id
    match Store.range a.store (anchor.id + 1) id with
    | .error e => .refuse a (.ofStore e)
    | .ok entries =>
        let r := report anchor id entries
        ⟨a, if r.valid then [] else [violation r], .ok r⟩

/-- The entries stamped within a span of time, in the order of the chain. -/
def exported (a : Engine σ) (range : TimeRange) : Except Failure (List Entry) :=
  if a.size = 0 then .ok []
  else match Store.range a.store 1 a.size with
    | .error e => .error (.ofStore e)
    | .ok entries => .ok (entries.filter fun e => range.contains e.timestamp)

/-- Waiting for a number of entries when no more arrive, at most until a deadline so many ticks
from now. -/
def awaitSize (a : Engine σ) (count : Nat) (ticks : Option Nat) : Except Failure Unit :=
  if ticks = some 0 then .error (.timeout (.missed "wait_for_trace" .beforeStart))
  else if count ≤ a.progress then .ok ()
  else .error (.timeout (.missed "wait_for_trace" .whileRunning))

end Engine

end Audit

end AgentGovernance

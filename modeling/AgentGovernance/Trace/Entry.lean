import AgentGovernance.ContentHash

/-!
# Trace entries

The trace is a chain: an entry holds the hash of its predecessor and a hash over all its own other
fields. Ids count from 1 and the first entry links to the genesis hash.
-/
namespace AgentGovernance

namespace Trace

structure Entry where
  id : Nat
  type : EventType
  source : String
  target : Option String
  payloadHash : ContentHash
  previous : ContentHash
  hash : ContentHash
  timestamp : Instant
  deriving DecidableEq, Repr

instance : Codec Entry where
  encode e := .record
    [("trace_id", encode e.id), ("event_type", encode e.type), ("source", encode e.source),
     ("target", e.target.map encode), ("payload_hash", encode e.payloadHash),
     ("prev_hash", encode e.previous), ("hash", encode e.hash), ("timestamp", encode e.timestamp)]
  decode? := Codec.readRecord do
    let id ← Codec.required "trace_id"
    let type ← Codec.required "event_type"
    let source ← Codec.required "source"
    let target ← Codec.optional "target"
    let payloadHash ← Codec.required "payload_hash"
    let previous ← Codec.required "prev_hash"
    let hash ← Codec.required "hash"
    let timestamp ← Codec.required "timestamp"
    return ⟨id, type, source, target, payloadHash, previous, hash, timestamp⟩

namespace Entry

/-- An absent target is hashed like an empty one. -/
def computeHash (id : Nat) (type : EventType) (source : String) (target : Option String)
    (payloadHash previous : ContentHash) (timestamp : Instant) : ContentHash :=
  .ofFields
    [Bytes.bigEndianAtLeast 8 id, .ofString type.name, .ofString source, .ofString (target.getD ""),
     .ofString payloadHash.text, .ofString previous.text, .ofString timestamp.preciseText]

def sealed (id : Nat) (type : EventType) (source : String) (target : Option String)
    (payloadHash previous : ContentHash) (timestamp : Instant) : Entry :=
  ⟨id, type, source, target, payloadHash, previous,
    computeHash id type source target payloadHash previous timestamp, timestamp⟩

def recomputeHash (e : Entry) : ContentHash :=
  computeHash e.id e.type e.source e.target e.payloadHash e.previous e.timestamp

def resealed (e : Entry) : Entry := { e with hash := e.recomputeHash }

end Entry

/-- An entry before it is put into a chain. -/
structure Draft where
  type : EventType
  source : String
  target : Option String
  payloadHash : ContentHash
  timestamp : Instant

def Draft.sealed (d : Draft) (id : Nat) (previous : ContentHash) : Entry :=
  .sealed id d.type d.source d.target d.payloadHash previous d.timestamp

/-- The chain of drafts whose first entry has the given id and links to `previous`. -/
def chain (id : Nat) (previous : ContentHash) : List Draft → List Entry
  | [] => []
  | d :: rest =>
      let e := d.sealed id previous
      e :: chain (id + 1) e.hash rest

/-- The times from `start` on and before `stop`. -/
structure TimeRange where
  start : Instant
  stop : Instant
  deriving DecidableEq, Repr

instance : Codec TimeRange where
  encode r := .record [("from", encode r.start), ("to", encode r.stop)]
  decode? := Codec.readRecord do
    let start ← Codec.required "from"
    let stop ← Codec.required "to"
    return ⟨start, stop⟩

def TimeRange.contains (r : TimeRange) (t : Instant) : Bool := r.start ≤ t && t < r.stop

/-- An entry of the chain, or its start under the id 0. -/
structure Checkpoint where
  id : Nat
  hash : ContentHash
  deriving DecidableEq, Repr

instance : Codec Checkpoint where
  encode c := .record [("trace_id", encode c.id), ("hash", encode c.hash)]
  decode? := Codec.readRecord do
    let id ← Codec.required "trace_id"
    let hash ← Codec.required "hash"
    return ⟨id, hash⟩

/-- Where an empty chain ends. -/
def Checkpoint.genesis : Checkpoint := ⟨0, .genesis⟩

structure Report where
  id : Nat
  valid : Bool
  /-- The id after which the hashes were recomputed. -/
  anchor : Nat
  checked : Nat
  divergence : Option Nat
  reason : Option String
  deriving DecidableEq, Repr

instance : Codec Report where
  encode r := .record
    [("trace_id", encode r.id), ("valid", encode r.valid), ("anchored_at", encode r.anchor),
     ("entries_checked", encode r.checked), ("first_divergence", r.divergence.map encode),
     ("reason", r.reason.map encode)]
  decode? := Codec.readRecord do
    let id ← Codec.required "trace_id"
    let valid ← Codec.required "valid"
    let anchor ← Codec.required "anchored_at"
    let checked ← Codec.required "entries_checked"
    let divergence ← Codec.optional "first_divergence"
    let reason ← Codec.optional "reason"
    return ⟨id, valid, anchor, checked, divergence, reason⟩

/-- A report of a divergence, as a failure. -/
def Report.demand (r : Report) : Except Failure Report :=
  if r.valid then .ok r
  else .error (.integrityViolation (toString (r.divergence.getD r.id)) (r.reason.getD ""))

end Trace

end AgentGovernance

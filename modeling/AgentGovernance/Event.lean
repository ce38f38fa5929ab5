import AgentGovernance.Json.Codec

/-!
# Events

The components of the core tell each other what happened by events. An event has a type, the
component that published it, the entity it is about, and a payload.
-/
namespace AgentGovernance

structure Event where
  type : EventType
  source : String
  target : Option String := none
  payload : Json := .null
  deriving DecidableEq, Repr

namespace Event

def members (e : Event) : List (String × Option Json) :=
  [("type", encode e.type), ("source", encode e.source), ("target", e.target.map encode),
   ("payload", encode e.payload)]

def toJson (e : Event) : Json := .record e.members

end Event

instance : Codec Event where
  encode := Event.toJson
  decode?
    | .object members => Codec.readFields (do
        let type ← Codec.required "type"
        let source ← Codec.required "source"
        let target ← Codec.optional "target"
        let payload ← Codec.withDefault "payload" Json.null
        return ⟨type, source, target, payload⟩) (.named members)
    | _ => none

/-- An event as it is published, with the time of publication. -/
structure StampedEvent where
  event : Event
  timestamp : Instant
  deriving DecidableEq, Repr

instance : Codec StampedEvent where
  encode e := .record (e.event.members ++ [("timestamp", some (encode e.timestamp))])
  decode? := Codec.readRecord do
    let type ← Codec.required "type"
    let source ← Codec.required "source"
    let target ← Codec.optional "target"
    let payload ← Codec.required "payload"
    let timestamp ← Codec.required "timestamp"
    return ⟨⟨type, source, target, payload⟩, timestamp⟩

/-- Which events a subscription receives. -/
inductive EventFilter where
  | only (type : EventType)
  | all
  deriving DecidableEq, Repr

def EventFilter.accepts : EventFilter → EventType → Bool
  | .only type, other => type = other
  | .all, _ => true

end AgentGovernance

import AgentGovernance.Config.Source

/-!
# The configuration manifest

A manifest names its version and kind, describes itself, and holds the specification of the core in
five sections. Every setting of the specification has a default; `fault?` finds the first setting
with which a core cannot run.
-/
namespace AgentGovernance

namespace Config

structure Metadata where
  name : String
  version : Option String
  labels : Option (Table String String)
  deriving DecidableEq, Repr

structure BusSettings where
  observerCapacity : Nat := 1024
  deriving DecidableEq, Repr

structure MemorySettings where
  retention : Option Span := none
  maxContentBytes : Nat := 1048576
  deriving DecidableEq, Repr

structure ConsensusSettings where
  defaultTimeout : Span := .ofSeconds 60
  participationFloor : Nat := 0
  reaperInterval : Span := .ofSeconds 5
  reaperEnabled : Bool := true
  deriving DecidableEq, Repr

/-- Where the trace is kept. -/
inductive StoreChoice where
  | memory
  | sled (path : String)
  deriving DecidableEq, Repr

structure AuditSettings where
  checkpointInterval : Nat := 256
  store : StoreChoice := .memory
  deriving DecidableEq, Repr

inductive LogFormat where
  | compact
  | json
  deriving DecidableEq, Repr

def LogFormat.all : List LogFormat := [.compact, .json]

def LogFormat.name : LogFormat → String
  | .compact => "compact"
  | .json => "json"

structure LogSettings where
  level : String := "info"
  format : LogFormat := .compact
  deriving DecidableEq, Repr

structure Specification where
  bus : BusSettings := {}
  memory : MemorySettings := {}
  consensus : ConsensusSettings := {}
  audit : AuditSettings := {}
  log : LogSettings := {}
  deriving DecidableEq, Repr

def expectedVersion : String := "covenant.io/v1"

def expectedKind : String := "CoreConfig"

structure Manifest where
  apiVersion : String := expectedVersion
  kind : String := expectedKind
  metadata : Metadata := ⟨"covenant-core", some "1.0.0", none⟩
  spec : Specification := {}
  deriving DecidableEq, Repr

/-! ## Writing -/

def Metadata.toJson (m : Metadata) : Json := .record
  [("name", encode m.name), ("version", m.version.map encode), ("labels", m.labels.map encode)]

def StoreChoice.toJson : StoreChoice → Json
  | .memory => .object [("type", encode "memory")]
  | .sled path => .object [("type", encode "sled"), ("path", encode path)]

def LogSettings.toJson (l : LogSettings) : Json :=
  .object [("log_level", encode l.level), ("log_format", encode l.format.name)]

def MemorySettings.toJson (m : MemorySettings) : Json := .record
  [("retention", m.retention.map fun s => encode s.text),
   ("max_content_bytes", encode m.maxContentBytes)]

def ConsensusSettings.toJson (c : ConsensusSettings) : Json := .object
  [("default_timeout", encode c.defaultTimeout.text),
   ("participation_floor", encode c.participationFloor),
   ("reaper_interval", encode c.reaperInterval.text), ("reaper_enabled", encode c.reaperEnabled)]

def AuditSettings.toJson (a : AuditSettings) : Json :=
  .object [("checkpoint_interval", encode a.checkpointInterval), ("store", a.store.toJson)]

def Specification.toJson (s : Specification) : Json := .object
  [("event_bus", .object [("observer_capacity", encode s.bus.observerCapacity)]),
   ("memory", s.memory.toJson), ("consensus", s.consensus.toJson), ("audit", s.audit.toJson),
   ("observability", s.log.toJson)]

def Manifest.toJson (m : Manifest) : Json := .object
  [("apiVersion", encode m.apiVersion), ("kind", encode m.kind), ("metadata", m.metadata.toJson),
   ("spec", m.spec.toJson)]

/-! ## Reading -/

section Reading

open Source

variable {σ : Type} [Source σ]

def metadata? : σ → Option Metadata := record? do
  let name ← required "name" text?
  let version ← optional "version" text?
  let labels ← optional "labels" (table? text?)
  return ⟨name, version, labels⟩

def busSettings? : σ → Option BusSettings := record? do
  return ⟨← withDefault "observer_capacity" ({} : BusSettings).observerCapacity word?⟩

def memorySettings? : σ → Option MemorySettings := record? do
  let retention ← withDefault "retention" none (optional? span?)
  let limit ← withDefault "max_content_bytes" ({} : MemorySettings).maxContentBytes word?
  return ⟨retention, limit⟩

def consensusSettings? : σ → Option ConsensusSettings := record? do
  let default : ConsensusSettings := {}
  let timeout ← withDefault "default_timeout" default.defaultTimeout span?
  let floor ← withDefault "participation_floor" default.participationFloor word?
  let interval ← withDefault "reaper_interval" default.reaperInterval span?
  let enabled ← withDefault "reaper_enabled" default.reaperEnabled bool?
  return ⟨timeout, floor, interval, enabled⟩

/-- A store in memory has no settings, and ignores entries with names. The path of the other store
is its only setting, by its name or its number; only texts and numbers name a setting. -/
def storeChoice? (s : σ) : Option StoreChoice := do
  let v ← variant? s
  match v.type, v.settings with
  | "memory", .listed [] | "memory", .named _ => some .memory
  | "sled", .listed [.text path] => some (.sled path)
  | "sled", .named entries =>
      let isPath (key : Content) : Bool := key = .text "path" || key = .word 0
      match entries.filter (isPath ·.1) with
      | [(_, .text path)] => if entries.any (·.1 = .other) then none else some (.sled path)
      | _ => none
  | _, _ => none

def auditSettings? : σ → Option AuditSettings := record? do
  let interval ← withDefault "checkpoint_interval" ({} : AuditSettings).checkpointInterval word?
  let store ← withDefault "store" .memory storeChoice?
  return ⟨interval, store⟩

def logSettings? : σ → Option LogSettings := record? do
  let level ← withDefault "log_level" ({} : LogSettings).level text?
  let format ← withDefault "log_format" .compact (named? LogFormat.all LogFormat.name)
  return ⟨level, format⟩

def specification? : σ → Option Specification := record? do
  let bus ← withDefault "event_bus" {} busSettings?
  let memory ← withDefault "memory" {} memorySettings?
  let consensus ← withDefault "consensus" {} consensusSettings?
  let audit ← withDefault "audit" {} auditSettings?
  let log ← withDefault "observability" {} logSettings?
  return ⟨bus, memory, consensus, audit, log⟩

def manifest? : σ → Option Manifest := record? do
  let apiVersion ← required "apiVersion" text?
  let kind ← required "kind" text?
  let metadata ← required "metadata" metadata?
  let spec ← withDefault "spec" {} specification?
  return ⟨apiVersion, kind, metadata, spec⟩

end Reading

instance : Codec StoreChoice := ⟨StoreChoice.toJson, storeChoice?⟩

instance : Codec LogSettings := ⟨LogSettings.toJson, logSettings?⟩

instance : Codec Specification := ⟨Specification.toJson, specification?⟩

instance : Codec Manifest := ⟨Manifest.toJson, manifest?⟩

/-! ## Validation -/

/-- What is wrong with a manifest that could be read. -/
inductive Fault where
  | wrongVersion (found : String)
  | wrongKind (found : String)
  | empty (field : String)
  | zero (field : String)
  deriving DecidableEq, Repr

def Fault.message : Fault → String
  | .wrongVersion found =>
      "Invalid apiVersion: '" ++ found ++ "'. Must be '" ++ expectedVersion ++ "'"
  | .wrongKind found => "Invalid kind: '" ++ found ++ "'. Must be '" ++ expectedKind ++ "'"
  | .empty field => field ++ " cannot be empty"
  | .zero field => field ++ " must be greater than zero"

/-- The tests a manifest has to pass, in order, each with the fault of failing it. -/
def Manifest.tests (m : Manifest) : List (Bool × Fault) :=
  let consensus := m.spec.consensus
  [(m.apiVersion = expectedVersion, .wrongVersion m.apiVersion),
   (m.kind = expectedKind, .wrongKind m.kind),
   (m.metadata.name ≠ "", .empty "metadata.name"),
   (m.spec.bus.observerCapacity ≠ 0, .zero "spec.event_bus.observer_capacity"),
   (m.spec.memory.maxContentBytes ≠ 0, .zero "spec.memory.max_content_bytes"),
   (consensus.defaultTimeout.nanos ≠ 0, .zero "spec.consensus.default_timeout"),
   (!consensus.reaperEnabled || consensus.reaperInterval.nanos ≠ 0,
     .zero "spec.consensus.reaper_interval"),
   (m.spec.audit.checkpointInterval ≠ 0, .zero "spec.audit.checkpoint_interval"),
   (m.spec.audit.store ≠ .sled "", .empty "spec.audit.store.path")]

/-- The first fault of a manifest. -/
def Manifest.fault? (m : Manifest) : Option Fault := (m.tests.find? (!·.1)).map (·.2)

end Config

end AgentGovernance

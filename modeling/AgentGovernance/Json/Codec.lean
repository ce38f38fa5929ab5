import AgentGovernance.Json.Reader
import AgentGovernance.Failure

/-!
# Typed JSON

A codec writes the values of a type as JSON and reads them back. A record is written as an object
and read from an object or from the list of its fields in their declared order; members with other
names are ignored. A field may be required, optional (absent or null) or have a default for its
absence. A name of a closed vocabulary is a string, or an object with that one member, which is
null. Counts and words are integers below `2 ^ 64`.
-/
namespace AgentGovernance

class Codec (α : Type) where
  encode : α → Json
  decode? : Json → Option α

export Codec (encode decode?)

namespace Codec

variable {α β : Type}

instance : Codec Json where
  encode := id
  decode? v := some v.canonical

instance : Codec Unit where
  encode _ := .null
  decode?
    | .null => some ()
    | _ => none

instance : Codec String where
  encode := .string
  decode?
    | .string s => some s
    | _ => none

instance : Codec Bool where
  encode := .bool
  decode?
    | .bool b => some b
    | _ => none

/-- An integer from zero up to below a limit. -/
def natBelow? (limit : Nat) : Json → Option Nat
  | .number (.integer n) => if 0 ≤ n ∧ n < limit then some n.toNat else none
  | _ => none

instance : Codec Nat where
  encode := .nat
  decode? := natBelow? (1 <<< 64)

instance : Codec UInt64 where
  encode := .word
  decode? v := (natBelow? (1 <<< 64) v).map UInt64.ofNat

instance : Codec UInt32 where
  encode n := .nat n.toNat
  decode? v := (natBelow? (1 <<< 32) v).map UInt32.ofNat

instance [Codec α] : Codec (Option α) where
  encode
    | none => .null
    | some a => encode a
  decode?
    | .null => some none
    | v => (decode? v).map some

instance [Codec α] : Codec (List α) where
  encode items := .array (items.map encode)
  decode?
    | .array items => items.mapM decode?
    | _ => none

instance [Codec α] [Codec β] : Codec (α × β) where
  encode p := .array [encode p.1, encode p.2]
  decode?
    | .array [a, b] => do some (← decode? a, ← decode? b)
    | _ => none

instance : Codec Instant where
  encode t := .string t.text
  decode?
    | .string s => Instant.parse? s
    | _ => none

instance : Codec Uuid where
  encode u := .string u.text
  decode?
    | .string s => Uuid.parse? s
    | _ => none

/-- Carries a codec over to a type with one field. -/
@[reducible] def wrapped [Codec β] (view : α → β) (make : β → α) : Codec α where
  encode a := encode (view a)
  decode? v := (decode? v).map make

instance : Codec AgentId := wrapped AgentId.uuid AgentId.mk
instance : Codec SnapshotId := wrapped SnapshotId.uuid SnapshotId.mk
instance : Codec ExecutionId := wrapped ExecutionId.uuid ExecutionId.mk
instance : Codec ProposalId := wrapped ProposalId.uuid ProposalId.mk
instance : Codec CommitmentId := wrapped CommitmentId.uuid CommitmentId.mk
instance : Codec PluginId := wrapped PluginId.name PluginId.mk
instance : Codec KernelHandle := wrapped KernelHandle.name KernelHandle.mk
instance : Codec KernelSnapshot := wrapped KernelSnapshot.name KernelSnapshot.mk
instance : Codec AgreementRef := wrapped AgreementRef.name AgreementRef.mk
instance : Codec VoterId := wrapped VoterId.name VoterId.mk
instance : Codec NodeId := wrapped NodeId.name NodeId.mk

/-- A codec for the names of a closed vocabulary. -/
@[reducible] def named (all : List α) (name : α → String) : Codec α where
  encode a := .string (name a)
  decode?
    | .string s => all.find? (name · = s)
    | .object [(s, .null)] => all.find? (name · = s)
    | _ => none

instance : Codec AgentStatus := named AgentStatus.all AgentStatus.name
instance : Codec VoteDecision := named VoteDecision.all VoteDecision.name
instance : Codec ProposalState := named ProposalState.all ProposalState.name
instance : Codec EventType := named EventType.all EventType.name

/-- A table whose keys are texts is an object. -/
@[reducible] def keyed {κ : Type} [Key κ] [Codec α] (text : κ → String) (make : String → κ) :
    Codec (Table κ α) where
  encode t := .object (t.entries.map fun (k, v) => (text k, encode v))
  decode?
    | .object members => do
        let entries ← members.mapM fun (k, v) => (decode? v).map ((make k, ·))
        some (Table.ofList entries)
    | _ => none

instance [Codec α] : Codec (Table String α) := keyed id id
instance [Codec α] : Codec (Table VoterId α) := keyed VoterId.name VoterId.mk
instance [Codec α] : Codec (Table PluginId α) := keyed PluginId.name PluginId.mk

/-- The part of a record that is still to be read. -/
inductive Fields where
  | named (members : List (String × Json))
  | listed (items : List Json)

def Fields.take (name : String) : Fields → Option Json × Fields
  | .named members => (Json.lookup name members, .named members)
  | .listed [] => (none, .listed [])
  | .listed (v :: rest) => (some v, .listed rest)

/-- A list has to be used up. -/
def Fields.isDone : Fields → Bool
  | .named _ => true
  | .listed items => items.isEmpty

abbrev FieldReader (α : Type) : Type := StateT Fields Option α

def required [Codec α] (name : String) : FieldReader α := fun fields =>
  match fields.take name with
  | (some v, rest) => (decode? v).map ((·, rest))
  | (none, _) => none

def optional [Codec α] (name : String) : FieldReader (Option α) := fun fields =>
  match fields.take name, fields with
  | (some v, rest), _ => (decode? v).map ((·, rest))
  | (none, rest), .named _ => some (none, rest)
  | (none, _), .listed _ => none

def withDefault [Codec α] (name : String) (default : α) : FieldReader α := fun fields =>
  match fields.take name with
  | (some v, rest) => (decode? v).map ((·, rest))
  | (none, rest) => some (default, rest)

def readFields (reader : FieldReader α) (fields : Fields) : Option α :=
  match reader fields with
  | some (a, rest) => if rest.isDone then some a else none
  | none => none

def readRecord (reader : FieldReader α) : Json → Option α
  | .object members => readFields reader (.named members)
  | .array items => readFields reader (.listed items)
  | _ => none

/-- The JSON form of a value with members replaced, read again; null removes a member. -/
def patch? [Codec α] (a : α) (changes : List (String × Json)) : Option α :=
  let apply (members : List (String × Json)) (change : String × Json) : List (String × Json) :=
    let others := members.filter (·.1 ≠ change.1)
    if change.2 = .null then others else others ++ [change]
  match encode a with
  | .object members => decode? (.object (changes.foldl apply members))
  | _ => none

end Codec

end AgentGovernance

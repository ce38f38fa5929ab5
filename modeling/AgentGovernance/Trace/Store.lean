import AgentGovernance.Json.Skim
import AgentGovernance.Trace.Entry

/-!
# Trace stores

A store keeps the entries of the chain under their ids and accepts only the entry with the next id.
Two stores are given. A `Log` holds the entries themselves. A `Ledger` holds their JSON texts as
bytes under their ids, in the order of the ids, and reads what it finds there; writing to it has two
stages that may fail separately, and a record of which only the second stage failed can be read all
the same.
-/
namespace AgentGovernance

namespace Trace

class Store (σ : Type) where
  append : σ → Entry → σ × Except StoreError Unit
  get : σ → Nat → Except StoreError (Option Entry)
  last : σ → Except StoreError (Option Entry)
  /-- The entries with ids from the first to the second number, in ascending order. -/
  range : σ → Nat → Nat → Except StoreError (List Entry)
  size : σ → Nat

/-- Appends entries one after the other. -/
def Store.appendAll {σ : Type} [Store σ] (s : σ) : List Entry → Except StoreError σ
  | [] => .ok s
  | e :: rest =>
      match Store.append s e with
      | (s, .ok ()) => appendAll s rest
      | (_, .error err) => .error err

/-- The id that has to follow. -/
def nextId (last : Option Entry) : Nat := last.elim 1 (·.id + 1)

structure Log where
  entries : List Entry := []
  deriving DecidableEq, Repr

namespace Log

def append (s : Log) (e : Entry) : Log × Except StoreError Unit :=
  let expected := nextId s.entries.getLast?
  if e.id = expected then (⟨s.entries ++ [e]⟩, .ok ())
  else (s, .error (.outOfOrder expected e.id))

def get (s : Log) (id : Nat) : Option Entry :=
  match id with
  | 0 => none
  | i + 1 => s.entries[i]?

def range (s : Log) (first last : Nat) : List Entry := (s.entries.take last).drop (first - 1)

instance : Store Log where
  append := append
  get s id := .ok (s.get id)
  last s := .ok s.entries.getLast?
  range s first last := .ok (s.range first last)
  size s := s.entries.length

end Log

/-- What becomes of a write. -/
inductive WriteOutcome where
  | written
  | notInserted (why : String)
  | notFlushed (why : String)
  deriving DecidableEq, Repr

structure Ledger where
  records : Table Nat Bytes := ∅
  /-- What becomes of the next writes; the ones after them succeed. -/
  outcomes : List WriteOutcome := []
  deriving DecidableEq, Repr

namespace Ledger

def fieldNames : List String :=
  ["trace_id", "event_type", "source", "target", "payload_hash", "prev_hash", "hash", "timestamp"]

/-- Reads a record. An object may not hold one of the fields twice, and the values of other members
are not read. -/
def readEntry (record : Bytes) : Except StoreError Entry :=
  let entry : Option Entry := do
    match Json.skimObject? record with
    | some members =>
        let given := members.filter fun (name, _) => fieldNames.contains name
        if !(given.map (·.1)).Nodup then none
        let fields ← given.mapM fun (name, text) => (Json.readBytes? text).map ((name, ·))
        decode? (.object fields)
    | none => decode? (← Json.readBytes? record)
  match entry with
  | some e => .ok e
  | none => .error (.undecodable "no trace entry")

def writeEntry (e : Entry) : Bytes := .ofString (encode e).compact

def readOptional : Option Bytes → Except StoreError (Option Entry)
  | none => .ok none
  | some record => (readEntry record).map some

def last (s : Ledger) : Except StoreError (Option Entry) := readOptional s.records.values.getLast?

/-- Writes a record and uses up the next outcome. -/
def write (s : Ledger) (id : Nat) (record : Bytes) : Ledger × Except StoreError Unit :=
  let records := s.records.insert id record
  let rest := s.outcomes.tail
  match s.outcomes.head?.getD .written with
  | .written => (⟨records, rest⟩, .ok ())
  | .notInserted why => (⟨s.records, rest⟩, .error (.io why))
  | .notFlushed why => (⟨records, rest⟩, .error (.io why))

def append (s : Ledger) (e : Entry) : Ledger × Except StoreError Unit :=
  match s.last with
  | .error err => (s, .error err)
  | .ok newest =>
      if e.id = nextId newest then s.write e.id (writeEntry e)
      else (s, .error (.outOfOrder (nextId newest) e.id))

def range (s : Ledger) (first last : Nat) : Except StoreError (List Entry) :=
  (s.records.filter fun id _ => first ≤ id && id ≤ last).values.mapM readEntry

instance : Store Ledger where
  append := append
  get s id := readOptional (s.records.find? id)
  last := last
  range := range
  size s := s.records.size

/-- Puts bytes under an id without any check. -/
def overwrite (s : Ledger) (id : Nat) (record : Bytes) : Ledger :=
  { s with records := s.records.insert id record }

end Ledger

end Trace

end AgentGovernance

import AgentGovernance.Trace.Store

/-!
# Stores that can be tampered with

A wrapper around a store through which entries can be replaced or hidden from reading by id and by
range, and appending and reading can be made to fail. What the store itself holds stays as it is.
-/
namespace AgentGovernance

namespace Trace

structure Tampered (σ : Type) where
  inner : σ
  forged : Table Nat Entry := ∅
  hidden : Table Nat Unit := ∅
  appendFault : Option String := none
  readFault : Option String := none

namespace Tampered

variable {σ : Type} [Store σ]

/-- What is read in place of an entry of the store. -/
def seen (s : Tampered σ) (e : Entry) : Option Entry :=
  if s.hidden.contains e.id then none else some ((s.forged.find? e.id).getD e)

def reading {α : Type} (s : Tampered σ) (read : Except StoreError α) : Except StoreError α :=
  match s.readFault with
  | some why => .error (.io why)
  | none => read

instance : Store (Tampered σ) where
  append s e :=
    match s.appendFault with
    | some why => (s, .error (.io why))
    | none =>
        let (inner, result) := Store.append s.inner e
        ({ s with inner }, result)
  get s id := s.reading do return (← Store.get s.inner id).bind s.seen
  last s := s.reading (Store.last s.inner)
  range s first last := s.reading do return (← Store.range s.inner first last).filterMap s.seen
  size s := Store.size s.inner

def forge (s : Tampered σ) (id : Nat) (e : Entry) : Tampered σ :=
  { s with forged := s.forged.insert id e }

/-- Hides an entry and says whether it was visible before. -/
def hide (s : Tampered σ) (id : Nat) : Tampered σ × Bool :=
  ({ s with hidden := s.hidden.insert id () }, !s.hidden.contains id)

def restore (s : Tampered σ) : Tampered σ := { s with forged := ∅, hidden := ∅ }

end Tampered

end Trace

end AgentGovernance

import AgentGovernance.Trace.Replay

/-!
# Edited chains

What somebody who holds a copy of a chain may do to it: change the members of an entry, compute the
hash of an entry again, and drop, repeat, exchange or cut out entries. An edit of an entry that is
not there is refused.
-/
namespace AgentGovernance

namespace Trace

inductive Edit where
  | change (index : Nat) (members : List (String × Json))
  | reseal (index : Nat)
  | remove (index : Nat)
  | duplicate (index : Nat)
  | swap (first second : Nat)
  /-- Keeps the entries from `start` on and before `stop`. -/
  | slice (start stop : Nat)

def Edit.apply? (entries : List Entry) : Edit → Option (List Entry)
  | .change i members => do some (entries.set i (← Codec.patch? (← entries[i]?) members))
  | .reseal i => (entries[i]?).map fun e => entries.set i e.resealed
  | .remove i => (entries[i]?).map fun _ => entries.eraseIdx i
  | .duplicate i => (entries[i]?).map (entries.insertIdx (i + 1))
  | .swap i j => do
      let e ← entries[i]?
      let f ← entries[j]?
      some ((entries.set i f).set j e)
  | .slice start stop => some ((entries.take stop).drop start)

def edited? (entries : List Entry) (edits : List Edit) : Option (List Entry) :=
  edits.foldlM Edit.apply? entries

end Trace

end AgentGovernance

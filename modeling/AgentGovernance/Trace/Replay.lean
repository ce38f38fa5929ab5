import AgentGovernance.Trace.Entry

/-!
# Links and replay

An entry links to a point of the chain when it has the next id, names the hash of that point and
its own hash is right. Replaying a segment follows the links from its first entry to its last; a
segment that starts with entry 1 has to start at genesis.

The ids of a segment that somebody hands in are any words, the largest one among them, and replaying
counts them as words. Behind the largest one the program stops where sums are checked, and where they
wrap around it goes on from zero.
-/
namespace AgentGovernance

namespace Trace

/-- Why an entry does not follow a point of the chain. -/
inductive LinkFault where
  | wrongId (expected found : Nat)
  | wrongPrevious (found expected : ContentHash)
  | wrongHash (stored recomputed : ContentHash)
  | missing (id : Nat)
  deriving DecidableEq, Repr

def LinkFault.message : LinkFault → String
  | .wrongId expected found => s!"expected trace id {expected}, found {found}"
  | .wrongPrevious found expected =>
      "prev_hash " ++ found.text ++ " does not match predecessor hash " ++ expected.text
  | .wrongHash stored recomputed =>
      "stored hash " ++ stored.text ++ " does not match recomputed " ++ recomputed.text
  | .missing id => s!"trace entry {id} is missing"

/-- The first check an entry fails. -/
def Entry.linkFault? (e : Entry) (expected : Nat) (previous : ContentHash) : Option LinkFault :=
  if e.id ≠ expected then some (.wrongId expected e.id)
  else if e.previous ≠ previous then some (.wrongPrevious e.previous previous)
  else if e.recomputeHash ≠ e.hash then some (.wrongHash e.hash e.recomputeHash)
  else none

/-- The entry that does not link, with the reason. -/
structure Divergence where
  id : Nat
  fault : LinkFault
  deriving DecidableEq, Repr

/-- Follows the links of stored entries, of which the first has to have the id `expected` and link to
`previous`: what the next entry would have to have, or the first divergence. -/
def follow (expected : Nat) (previous : ContentHash) :
    List Entry → Except Divergence (Nat × ContentHash)
  | [] => .ok (expected, previous)
  | e :: rest =>
      match e.linkFault? expected previous with
      | some fault => .error ⟨expected, fault⟩
      | none => follow (expected + 1) e.hash rest

def Divergence.failure (d : Divergence) : Failure :=
  .integrityViolation (toString d.id) d.fault.message

/-- What becomes of a sum of words that is no word: the program stops, or the sum goes on from zero. -/
inductive Arithmetic where
  | checked
  | wrapping
  deriving DecidableEq, Repr

/-- The id behind another one, unless the program stops. -/
def Arithmetic.next? (a : Arithmetic) (id : Nat) : Option Nat :=
  if id + 1 < 1 <<< 64 then some (id + 1)
  else match a with
    | .checked => none
    | .wrapping => some 0

/-- Follows links like `follow`, with ids that are words. The next id is computed behind every entry
that links, also behind the last one. -/
def followWith (a : Arithmetic) (expected : Nat) (previous : ContentHash) :
    List Entry → Option (Except Divergence ContentHash)
  | [] => some (.ok previous)
  | e :: rest =>
      match e.linkFault? expected previous with
      | some fault => some (.error ⟨expected, fault⟩)
      | none =>
          match a.next? expected with
          | none => none
          | some next => followWith a next e.hash rest

/-- The hash of the last entry of a segment whose links hold, unless the program stops. -/
def replayWith (a : Arithmetic) : List Entry → Option (Except Failure ContentHash)
  | [] => some (.ok .genesis)
  | first :: rest =>
      let start := if first.id = 1 then .genesis else first.previous
      (followWith a first.id start (first :: rest)).map (Except.mapError Divergence.failure)

end Trace

end AgentGovernance

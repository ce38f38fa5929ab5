import AgentGovernance.Json.Reader

/-!
# Skimming JSON

The text of an object can be split into its members without reading their values. A skimmed value
has the shape of a value only: its containers nest to any depth, its numbers have any size, and the
octets and surrogates of its strings need not make up characters. Keys are read.

The syntax of JSON is ASCII, so octets are skimmed as the characters with their numbers.
-/
namespace AgentGovernance.Json

namespace Skim

open Reader

def skipNumber? (cs : List Char) : Option (List Char) := do
  let cs := match cs with
    | '-' :: r => r
    | r => r
  let whole := cs.takeWhile isDigit
  if whole.isEmpty ∨ (whole.head? = some '0' ∧ 1 < whole.length) then none
  else
    let (_, rest) ← fractionPart? (cs.dropWhile isDigit)
    let (_, rest) ← exponentPart? rest
    some rest

/-- Skips a string behind its opening mark. -/
def skipString? : List Char → Option (List Char)
  | [] => none
  | '"' :: rest => some rest
  | '\\' :: 'u' :: a :: b :: c :: d :: rest =>
      if [a, b, c, d].all fun x => (hexValue? x).isSome then skipString? rest else none
  | '\\' :: c :: rest => if (shortEscape? c).isSome then skipString? rest else none
  | c :: rest => if c.toNat < 32 then none else skipString? rest

mutual

/-- What follows one value; `fuel` bounds the calls. -/
def skipValue? : Nat → List Char → Option (List Char)
  | 0, _ => none
  | fuel + 1, cs =>
      match skipBlanks cs with
      | 'n' :: 'u' :: 'l' :: 'l' :: rest => some rest
      | 't' :: 'r' :: 'u' :: 'e' :: rest => some rest
      | 'f' :: 'a' :: 'l' :: 's' :: 'e' :: rest => some rest
      | '"' :: rest => skipString? rest
      | '[' :: rest =>
          match skipBlanks rest with
          | ']' :: rest => some rest
          | rest => skipItems? fuel rest
      | '\x7b' :: rest =>
          match skipBlanks rest with
          | '\x7d' :: rest => some rest
          | rest => skipMembers? fuel rest
      | rest => skipNumber? rest

def skipItems? : Nat → List Char → Option (List Char)
  | 0, _ => none
  | fuel + 1, cs => do
      match skipBlanks (← skipValue? fuel cs) with
      | ',' :: rest => skipItems? fuel rest
      | ']' :: rest => some rest
      | _ => none

def skipMembers? : Nat → List Char → Option (List Char)
  | 0, _ => none
  | fuel + 1, cs => do
      let '"' :: rest := skipBlanks cs | none
      let ':' :: rest := skipBlanks (← skipString? rest) | none
      match skipBlanks (← skipValue? fuel rest) with
      | ',' :: rest => skipMembers? fuel rest
      | '\x7d' :: rest => some rest
      | _ => none

end

/-- The octets of the text between two places. -/
def between (start stop : List Char) : Bytes :=
  (start.take (start.length - stop.length)).map fun c => UInt8.ofNat c.toNat

/-- The members of an object up to its end, with what follows. -/
def members? : Nat → List Char → Option (List (String × Bytes) × List Char)
  | 0, _ => none
  | fuel + 1, cs => do
      let key := skipBlanks cs
      let '"' :: rest := key | none
      let rest ← skipString? rest
      let some (.string name) := (between key rest).toString? >>= read? | none
      let ':' :: value := skipBlanks rest | none
      let rest ← skipValue? (2 * value.length + 2) value
      let member := (name, between value rest)
      match skipBlanks rest with
      | ',' :: rest => do
          let (members, rest) ← members? fuel rest
          some (member :: members, rest)
      | '\x7d' :: rest => some ([member], rest)
      | _ => none

end Skim

/-- The members of the object that a text holds, in its order, with the texts of their values. -/
def skimObject? (text : Bytes) : Option (List (String × Bytes)) := do
  let cs := text.map fun b => Char.ofNat b.toNat
  let '\x7b' :: rest := Reader.skipBlanks cs | none
  let (members, rest) ← match Reader.skipBlanks rest with
    | '\x7d' :: rest => some ([], rest)
    | rest => Skim.members? cs.length rest
  if (Reader.skipBlanks rest).isEmpty then some members else none

/-- The value whose text these octets are. -/
def readBytes? (text : Bytes) : Option Json := text.toString? >>= read?

end AgentGovernance.Json

import AgentGovernance.Config.Yaml.Property
import AgentGovernance.Config.Yaml.Scalar

/-!
# The tokens of a YAML text

Whether something is a key shows only at the colon behind it. The lexer therefore remembers, for the
block and for every open bracket, the last place where a key may have started, and puts the token of
the key there later. Such a key has to end on its line and within 1024 characters.

Indentation is a stack of columns, one for every open block.
-/
namespace AgentGovernance

namespace Config.Yaml

/-- A place where a key may have started. -/
structure Candidate where
  /-- How many tokens precede it. -/
  position : Nat
  /-- Whether the place can hold nothing but a key. -/
  isRequired : Bool
  index : Nat
  line : Nat
  column : Nat
  deriving Repr

structure Lexer where
  cursor : Cursor
  /-- The tokens read, the last one first. -/
  tokens : List Token := []
  /-- How many there are. -/
  count : Nat := 0
  /-- The columns of the open blocks, the innermost first. -/
  indents : List Nat := []
  candidate : Option Candidate := none
  /-- The candidates around the open brackets, the innermost first. -/
  outer : List (Option Candidate) := []
  mayStartKey : Bool := true
  deriving Repr

namespace Lexer

def inFlow (l : Lexer) : Bool := !l.outer.isEmpty

/-- The column from which on text belongs to the innermost block. -/
def least (l : Lexer) : Nat := l.indents.head?.elim 0 (· + 1)

def push (l : Lexer) (t : Token) : Lexer :=
  { l with tokens := t :: l.tokens, count := l.count + 1 }

/-- Puts a token behind a number of tokens. -/
def insert (l : Lexer) (t : Token) (position : Nat) : Lexer :=
  { l with tokens := l.tokens.insertIdx (l.count - position) t, count := l.count + 1 }

/-- Skips blanks, comments and line breaks. Tabs do not indent. -/
def skip (fuel : Nat) (l : Lexer) : Lexer :=
  match fuel with
  | 0 => l
  | fuel + 1 =>
      let c := l.cursor
      let c := if c.column = 0 ∧ c.at? byteOrderMark then c.next else c
      let c := c.skipWhile fun a => a = ' ' || (a = '\t' && (l.inFlow || !l.mayStartKey))
      let c := if c.at? '#' then c.skipWhile (!isBreak ·) else c
      if c.rest.head?.any isBreak then
        skip fuel { l with cursor := c.next, mayStartKey := l.mayStartKey || !l.inFlow }
      else { l with cursor := c }

/-! ## Keys -/

/-- Drops a candidate that the cursor has left behind. -/
def expire? (c : Cursor) : Option Candidate → Option (Option Candidate)
  | none => some none
  | some k =>
      if k.line < c.line ∨ k.index + 1024 < c.index then
        if k.isRequired then none else some none
      else some (some k)

def expireAll? (l : Lexer) : Option Lexer := do
  let candidate ← expire? l.cursor l.candidate
  let outer ← l.outer.mapM (expire? l.cursor)
  return { l with candidate, outer }

/-- Drops the candidate before something that is no key. -/
def noKey? (l : Lexer) : Option Lexer :=
  if l.candidate.any (·.isRequired) then none else some { l with candidate := none }

/-- Makes the cursor a candidate, if a key may start there. -/
def startKey? (l : Lexer) : Option Lexer :=
  if l.mayStartKey then do
    let l ← l.noKey?
    let c := l.cursor
    let isRequired := !l.inFlow && l.least = c.column + 1
    return { l with candidate := some ⟨l.count, isRequired, c.index, c.line, c.column⟩ }
  else some l

/-! ## Blocks -/

/-- Opens a block at a column, unless one is open there, behind a number of tokens. -/
def openBlock (l : Lexer) (start : Token) (column position : Nat) : Lexer :=
  if l.inFlow || column < l.least then l
  else { l.insert start position with indents := column :: l.indents }

/-- Closes the blocks whose column does not belong to a set. -/
def closeBlocks (l : Lexer) (stays : Nat → Bool) : Lexer :=
  let closed := l.indents.takeWhile (!stays ·)
  { l with
    tokens := List.replicate closed.length .blockEnd ++ l.tokens
    count := l.count + closed.length
    indents := l.indents.drop closed.length }

def closeAll (l : Lexer) : Lexer := if l.inFlow then l else l.closeBlocks fun _ => false

/-! ## Single tokens -/

/-- A token of some characters. -/
def take (l : Lexer) (t : Token) (length : Nat) (mayStartKey : Bool) : Lexer :=
  { l with cursor := l.cursor.drop length, mayStartKey }.push t

def documentMarker? (l : Lexer) (t : Token) : Option Lexer := do
  return (← l.closeAll.noKey?).take t 3 false

def bracket? (l : Lexer) (t : Token) : Option Lexer := do
  let l ← l.startKey?
  return { l.take t 1 true with candidate := none, outer := l.candidate :: l.outer }

def closingBracket? (l : Lexer) (t : Token) : Option Lexer := do
  let l ← l.noKey?
  let l := match l.outer with
    | candidate :: outer => { l with candidate, outer }
    | [] => l
  return l.take t 1 false

/-- A mark at the start of an entry, which in a block opens it. -/
def entryMark? (l : Lexer) (start mark : Token) (mayStartKey : Bool) : Option Lexer := do
  if !l.inFlow && !l.mayStartKey then none
  let l ← (l.openBlock start l.cursor.column l.count).noKey?
  return l.take mark 1 mayStartKey

def colon? (l : Lexer) : Option Lexer :=
  match l.candidate with
  | some k =>
      let l := { l.insert .key k.position with candidate := none }
      some ((l.openBlock .blockMapping k.column k.position).take .value 1 false)
  | none =>
      if !l.inFlow && !l.mayStartKey then none
      else
        let l := l.openBlock .blockMapping l.cursor.column l.count
        some (l.take .value 1 !l.inFlow)

/-- A token that may start a key and is read at the cursor. -/
def keyPart? (l : Lexer) (read? : Cursor → Option (Token × Cursor)) : Option Lexer := do
  let l ← l.startKey?
  let (t, cursor) ← read? l.cursor
  return { l with cursor, mayStartKey := false }.push t

def plain? (fuel : Nat) (l : Lexer) : Option Lexer := do
  let l ← l.startKey?
  let (text, mayStartKey, cursor) ← plainFrom? l.inFlow l.least fuel [] [] l.cursor
  return { l with cursor, mayStartKey }.push (.scalar .plain text)

def block? (fuel : Nat) (l : Lexer) : Option Lexer := do
  let l ← l.noKey?
  let style := if l.cursor.at? '>' then .folded else .literal
  let (text, cursor) ← Yaml.block? fuel l.least l.cursor
  return { l with cursor, mayStartKey := true }.push (.scalar style text)

def quoted? (fuel : Nat) (l : Lexer) : Option Lexer :=
  l.keyPart? fun c => (Yaml.quoted? fuel c).map fun (text, c) => (.scalar .quoted text, c)

def named? (l : Lexer) (make : String → Token) : Option Lexer :=
  l.keyPart? fun c => (name? (c.drop 1)).map fun (name, c) => (make name, c)

def tag? (l : Lexer) : Option Lexer :=
  l.keyPart? fun c => (Yaml.tag? l.inFlow c).map fun (name, c) => (.tag name, c)

def directive? (l : Lexer) : Option Lexer := do
  let l ← l.closeAll.noKey?
  let (t, cursor) ← Yaml.directive? l.cursor
  return { l with cursor, mayStartKey := false }.push t

/-- The next token, once blanks are skipped. -/
def token? (fuel : Nat) (l : Lexer) : Option Lexer :=
  let c := l.cursor
  match c.rest with
  | [] => do return (← l.closeAll.noKey?).push .streamEnd
  | a :: rest =>
      let standsAlone := endsToken rest
      if a = '%' ∧ c.column = 0 then l.directive?
      else if c.startsDocument then l.documentMarker? .documentStart
      else if c.endsDocument then l.documentMarker? .documentEnd
      else if a = '[' then l.bracket? .flowSequence
      else if a = '\x7b' then l.bracket? .flowMapping
      else if a = ']' then l.closingBracket? .flowSequenceEnd
      else if a = '\x7d' then l.closingBracket? .flowMappingEnd
      else if a = ',' then do return (← l.noKey?).take .comma 1 true
      else if a = '-' ∧ standsAlone then l.entryMark? .blockSequence .dash true
      else if a = '?' ∧ (l.inFlow ∨ standsAlone) then l.entryMark? .blockMapping .key !l.inFlow
      else if a = ':' ∧ (l.inFlow ∨ standsAlone) then l.colon?
      else if a = '*' then l.named? .alias
      else if a = '&' then l.named? .anchor
      else if a = '!' then l.tag?
      else if (a = '|' ∨ a = '>') ∧ ¬l.inFlow then l.block? fuel
      else if a = '\'' ∨ a = '"' then l.quoted? fuel
      else if startsPlain l.inFlow c.rest then l.plain? fuel
      else none

def next? (fuel : Nat) (l : Lexer) : Option Lexer := do
  let l ← (l.skip fuel).expireAll?
  let l := if l.inFlow then l else l.closeBlocks (· ≤ l.cursor.column)
  l.token? fuel

/-- All the tokens, the last one first. Each takes a character at least, so there is always more
fuel than there are characters. -/
def run? : Nat → Lexer → Option (List Token)
  | 0, _ => none
  | fuel + 1, l => do
      let l ← l.next? (fuel + 1)
      if l.tokens.head? = some .streamEnd then return l.tokens else run? fuel l

end Lexer

/-- The tokens of a text. -/
def tokens? (text : String) : Option (List Token) :=
  let cs := text.toList
  let cs := if cs.head? = some byteOrderMark then cs.drop 1 else cs
  if cs.all isAllowed then
    let cs := normalBreaks cs
    (Lexer.run? (cs.length + 1) { cursor := ⟨cs, 0, 0, 0⟩ }).map List.reverse
  else none

end Config.Yaml

end AgentGovernance

import AgentGovernance.Config.Yaml.Lexer
import AgentGovernance.Table

/-!
# Documents of YAML

The tokens of a text make up one document, which is a tree of nodes. An alias stands for the node
with its anchor. Anchors are numbered by how many names there were before, so a name that is given
again, and the next new name, may share a number; the last node with a number is the one it stands
for.
-/
namespace AgentGovernance

namespace Config.Yaml

/-- What a node has besides its contents. -/
structure Properties where
  anchor : Option Nat := none
  tag : Option Bytes := none
  deriving Repr

inductive Node where
  | scalar (properties : Properties) (style : Style) (text : String)
  | sequence (properties : Properties) (items : List Node)
  | mapping (properties : Properties) (entries : List (Node × Node))
  | alias (anchor : Nat)
  deriving Repr, Inhabited

/-- A value that is not written at all. -/
def Node.absent : Node := .scalar {} .plain ""

/-! ## Reading nodes -/

/-- What a parser has before it, and what it has to remember of what came before. -/
structure Parser where
  tokens : List Token
  /-- The prefixes of the handles. -/
  prefixes : Table String Bytes
  /-- The names of anchors with their numbers. -/
  anchors : Table String Nat := ∅

abbrev Parse (α : Type) : Type := StateT Parser Option α

namespace Parse

/-- The token before the parser. -/
def peek : Parse Token := fun p => p.tokens.head?.map ((·, p))

def skip : Parse Unit := fun p => some ((), { p with tokens := p.tokens.drop 1 })

/-- Skips a token, if it comes next. -/
def skipIf (t : Token) : Parse Bool := do
  if (← peek) = t then
    skip
    return true
  else return false

/-- Skips a token, which has to come next. -/
def expect (t : Token) : Parse Unit := do
  if !(← skipIf t) then failure

def resolve (name : TagName) : Parse Bytes := fun p => do
  if name.handle = "" then return (name.suffix, p)
  let octets ← p.prefixes.find? name.handle
  return (octets ++ name.suffix, p)

/-- Numbers the anchor of a node. -/
def declare (name : String) : Parse Nat := fun p =>
  some (p.anchors.size, { p with anchors := p.anchors.insert name p.anchors.size })

/-- An anchor, a tag or both, in either order. -/
def properties : Parse Properties := do
  let anchor : Parse (Option Nat) := do
    let .anchor name ← peek | return none
    skip
    some <$> declare name
  let tag : Parse (Option Bytes) := do
    let .tag name ← peek | return none
    skip
    some <$> resolve name
  match ← anchor with
  | some n => return ⟨some n, ← tag⟩
  | none =>
      let tag ← tag
      return ⟨← anchor, tag⟩

/-- The tag that leaves a scalar untyped. -/
def plainTag : Bytes := .ofString "!"

/-- Where a node stands. -/
inductive Place where
  | inFlow
  | inBlock
  /-- Behind a key, where the dashes of a list need not be indented. -/
  | behindKey
  deriving DecidableEq

mutual

/-- A node; `fuel` bounds the calls, of which each token takes three at most. -/
def node (fuel : Nat) (place : Place) : Parse Node := do
  match fuel with
  | 0 => failure
  | fuel + 1 =>
      if let .alias name ← peek then
        skip
        let some n := (← get).anchors.find? name | failure
        return .alias n
      let p ← properties
      match ← peek, place with
      | .scalar style text, _ =>
          skip
          return .scalar (if p.tag = some plainTag then { p with tag := none } else p) style text
      | .flowSequence, _ =>
          skip
          return .sequence p (← flowItems fuel true)
      | .flowMapping, _ =>
          skip
          return .mapping p (← flowEntries fuel true)
      | .dash, .behindKey => return .sequence p (← looseItems fuel)
      | .blockSequence, .inBlock | .blockSequence, .behindKey =>
          skip
          return .sequence p (← blockItems fuel)
      | .blockMapping, .inBlock | .blockMapping, .behindKey =>
          skip
          return .mapping p (← blockEntries fuel)
      | _, _ => if p.anchor.isSome || p.tag.isSome then return .scalar p .plain "" else failure

/-- A node, unless one of some tokens comes next. -/
def nodeBefore (fuel : Nat) (place : Place) (ends : List Token) : Parse Node := do
  match fuel with
  | 0 => failure
  | fuel + 1 => if ends.contains (← peek) then return .absent else node fuel place

/-- The entries of a block up to its end. -/
def blockItems (fuel : Nat) : Parse (List Node) := do
  match fuel with
  | 0 => failure
  | fuel + 1 =>
      if ← skipIf .blockEnd then return []
      expect .dash
      let item ← nodeBefore fuel .inBlock [.dash, .blockEnd]
      return item :: (← blockItems fuel)

/-- The entries of a list that is not indented, up to something that is no entry. -/
def looseItems (fuel : Nat) : Parse (List Node) := do
  match fuel with
  | 0 => failure
  | fuel + 1 =>
      if !(← skipIf .dash) then return []
      let item ← nodeBefore fuel .inBlock [.dash, .key, .value, .blockEnd]
      return item :: (← looseItems fuel)

def blockEntries (fuel : Nat) : Parse (List (Node × Node)) := do
  match fuel with
  | 0 => failure
  | fuel + 1 =>
      if ← skipIf .blockEnd then return []
      expect .key
      let ends : List Token := [.key, .value, .blockEnd]
      let key ← nodeBefore fuel .behindKey ends
      let value ← if ← skipIf .value then nodeBefore fuel .behindKey ends else pure .absent
      return (key, value) :: (← blockEntries fuel)

/-- The items between brackets. A key among them makes a mapping of one entry; a key that is not
written takes the token that comes instead. -/
def flowItems (fuel : Nat) (isFirst : Bool) : Parse (List Node) := do
  match fuel with
  | 0 => failure
  | fuel + 1 =>
      if ← skipIf .flowSequenceEnd then return []
      if !isFirst then
        expect .comma
        if ← skipIf .flowSequenceEnd then return []
      if ← skipIf .key then
        let ends : List Token := [.comma, .flowSequenceEnd]
        let key ←
          if (.value :: ends).contains (← peek) then
            skip
            pure .absent
          else node fuel .inFlow
        let value ← if ← skipIf .value then nodeBefore fuel .inFlow ends else pure .absent
        return .mapping {} [(key, value)] :: (← flowItems fuel false)
      else
        let item ← node fuel .inFlow
        return item :: (← flowItems fuel false)

/-- The entries between braces. -/
def flowEntries (fuel : Nat) (isFirst : Bool) : Parse (List (Node × Node)) := do
  match fuel with
  | 0 => failure
  | fuel + 1 =>
      if ← skipIf .flowMappingEnd then return []
      if !isFirst then
        expect .comma
        if ← skipIf .flowMappingEnd then return []
      if ← skipIf .key then
        let ends : List Token := [.comma, .flowMappingEnd]
        let key ← nodeBefore fuel .inFlow (.value :: ends)
        let value ← if ← skipIf .value then nodeBefore fuel .inFlow ends else pure .absent
        return (key, value) :: (← flowEntries fuel false)
      else
        let key ← node fuel .inFlow
        return (key, .absent) :: (← flowEntries fuel false)

end

/-! ## Reading documents -/

/-- The directives of a document; neither the version nor a handle is given twice. -/
def directives (fuel : Nat) (hasVersion : Bool) (given : Table String Bytes) :
    Parse (Table String Bytes) := do
  match fuel with
  | 0 => failure
  | fuel + 1 =>
      match ← peek with
      | .version major minor =>
          if hasVersion || major ≠ 1 || !(minor = 1 || minor = 2) then failure
          skip
          directives fuel true given
      | .tagPrefix handle octets =>
          if (given.find? handle).isSome then failure
          skip
          directives fuel hasVersion (given.insert handle octets)
      | _ => return given

/-- The prefixes of handles that no directive names. -/
def standardPrefixes : Table String Bytes :=
  .ofList [("!", .ofString "!"), ("!!", .ofString "tag:yaml.org,2002:")]

def isDirective : Token → Bool
  | .version .. | .tagPrefix .. => true
  | _ => false

/-- Skips the ends of the document up to the end of the text. -/
def ending : Nat → Parse Unit
  | 0 => failure
  | fuel + 1 => do if ← skipIf .documentEnd then ending fuel else expect .streamEnd

/-- The root of the only document of a text. Directives are followed by a start mark, and a document
behind such a mark may be empty. -/
def root (fuel : Nat) : Parse Node := do
  let hasDirectives := isDirective (← peek)
  let given ← directives fuel false ∅
  let add (t : Table String Bytes) (e : String × Bytes) : Table String Bytes := t.insert e.1 e.2
  modify fun p => { p with prefixes := given.entries.foldl add p.prefixes }
  let isMarked ← skipIf .documentStart
  if hasDirectives && !isMarked then failure
  let next ← peek
  let isEmpty := isDirective next || [.documentStart, .documentEnd, .streamEnd].contains next
  let root ← if isMarked && isEmpty then pure .absent else node fuel .inBlock
  ending fuel
  return root

end Parse

/-! ## Anchors -/

mutual

/-- The nodes with an anchor, in the order of the text. -/
def anchored : Node → List (Nat × Node)
  | .scalar p style text => p.anchor.toList.map ((·, .scalar p style text))
  | .sequence p items => p.anchor.toList.map ((·, .sequence p items)) ++ anchoredItems items
  | .mapping p entries => p.anchor.toList.map ((·, .mapping p entries)) ++ anchoredEntries entries
  | .alias _ => []

def anchoredItems : List Node → List (Nat × Node)
  | [] => []
  | item :: rest => anchored item ++ anchoredItems rest

def anchoredEntries : List (Node × Node) → List (Nat × Node)
  | [] => []
  | (key, value) :: rest => anchored key ++ anchored value ++ anchoredEntries rest

end

mutual

/-- How many steps it takes to walk through a node: one for a leaf, two for a collection. -/
def nodeSize : Node → Nat
  | .sequence _ items => 2 + itemsSize items
  | .mapping _ entries => 2 + entriesSize entries
  | _ => 1

def itemsSize : List Node → Nat
  | [] => 0
  | item :: rest => nodeSize item + itemsSize rest

def entriesSize : List (Node × Node) → Nat
  | [] => 0
  | (key, value) :: rest => nodeSize key + nodeSize value + entriesSize rest

end

structure Document where
  root : Node
  /-- The nodes that aliases stand for. -/
  anchors : Table Nat Node

/-- The tree of a text with exactly one document. -/
def read? (text : String) : Option Document := do
  let tokens ← tokens? text
  let (root, _) ← Parse.root (3 * tokens.length + 3) ⟨tokens, Parse.standardPrefixes, ∅⟩
  return ⟨root, .ofList (anchored root)⟩

end Config.Yaml

end AgentGovernance

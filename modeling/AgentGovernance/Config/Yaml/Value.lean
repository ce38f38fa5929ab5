import AgentGovernance.Config.Source
import AgentGovernance.Config.Yaml.Document
import AgentGovernance.Config.Yaml.Plain

/-!
# Settings in YAML

A scalar that is not quoted is what is wished for if its text allows it, and every scalar is a text.
Where nothing is wished for, tags and the text of an unquoted scalar decide; a tag of its own kind
makes a value one of a type that is not known there.
-/
namespace AgentGovernance

namespace Config.Yaml

def standardTag (name : String) : Bytes := .ofString ("tag:yaml.org,2002:" ++ name)

def Properties.isTagged (p : Properties) (name : String) : Bool := p.tag = some (standardTag name)

/-- The name in a tag that is no standard one. -/
def Properties.localName? (p : Properties) : Option String :=
  match p.tag with
  | some (33 :: name) => Bytes.toString? name
  | _ => none

/-- A node in its document. -/
structure Value where
  document : Document
  node : Node

/-- The node that a node stands for. -/
def Document.resolve? (d : Document) : Node → Option Node
  | .alias n => d.anchors.find? n
  | node => some node

namespace Value

def resolved? (v : Value) : Option Node := v.document.resolve? v.node

def text? (v : Value) : Option String := do
  let .scalar _ _ s ← v.resolved? | none
  return s

/-- The text of a scalar that may have a type: one that is not quoted, or a literal with the tag of
the type. -/
def typed? (v : Value) (type : String) : Option String := do
  let .scalar p style s ← v.resolved? | none
  if style = .plain || (style = .literal && p.isTagged type) then return s else none

def isNull? (v : Value) : Option Bool := do
  match ← v.resolved? with
  | .scalar p .plain s =>
      if p.tag.isNone then return Plain.isNull s
      else if p.isTagged "null" then if Plain.isNullWord s then return true else none
      else return false
  | _ => return false

/-- A tag names a choice if there is nothing behind it. -/
def choice? (v : Value) : Option String := do
  let .scalar p style s ← v.resolved? | none
  match p.localName? with
  | none => return s
  | some name => if style = .plain && Plain.isNull s then return name else none

def fields? (v : Value) : Option (Parts String Value) := do
  match ← v.resolved? with
  | .mapping _ entries =>
      return .named (← entries.mapM fun (key, value) => do
        return (← text? ⟨v.document, key⟩, ⟨v.document, value⟩))
  | .scalar _ .plain "" => return .named []
  | _ => none

/-! ## Values for which nothing is wished -/

def integerContent? (s : String) : Option Content :=
  match Plain.integer? s with
  | some (.word n) => some (.word n)
  | some .negative => some .other
  | some .wide | none => none

/-- What a scalar is; there is nothing to hold an integer of more than 64 bits. -/
def scalarContent? (p : Properties) (style : Style) (s : String) : Option Content :=
  if p.localName?.isSome then none
  else if p.isTagged "bool" then (Plain.bool? s).map fun _ => .other
  else if p.isTagged "int" then integerContent? s
  else if p.isTagged "float" then if Plain.isFloat s then some .other else none
  else if p.isTagged "null" then if Plain.isNullWord s then some .other else none
  else if p.tag.isSome || style ≠ .plain || Plain.isText s then some (.text s)
  else if (Plain.integer? s).isSome then integerContent? s
  else some .other

/-- Counts down the aliases that may still be followed. -/
def follow : Node → StateT Nat Option Unit
  | .alias _ => fun left => if left = 0 then none else some ((), left - 1)
  | _ => pure ()

/-- What a node is. At most `depth` collections may nest. -/
def content? (d : Document) (depth : Nat) (node : Node) : StateT Nat Option Content := do
  follow node
  match ← d.resolve? node, depth with
  | .scalar p style s, _ => scalarContent? p style s
  | .sequence p items, depth + 1 =>
      if p.localName?.isSome then failure
      for item in items do
        let _ ← content? d depth item
      return .other
  | .mapping p entries, depth + 1 =>
      if p.localName?.isSome then failure
      for (key, value) in entries do
        let _ ← content? d depth key
        let _ ← content? d depth value
      return .other
  | _, _ => failure

/-- How many collections may nest in a variant, which stands in three others. -/
def variantDepth : Nat := 124

/-- The entries of a variant, its type apart, which is given once. -/
def variantEntries (d : Document) :
    Option String → List (Node × Node) → StateT Nat Option (String × List (Content × Content))
  | some type, [] => return (type, [])
  | none, [] => failure
  | type, (key, value) :: rest => do
      let key ← content? d variantDepth key
      if key = .text "type" then
        if type.isSome then failure
        variantEntries d (← text? ⟨d, value⟩) rest
      else
        let value ← content? d variantDepth value
        let (type, entries) ← variantEntries d type rest
        return (type, (key, value) :: entries)

/-- Aliases may be followed a hundred times as often as the document has parts. -/
def variant? (v : Value) : Option Variant := do
  let d := v.document
  let budget := 100 * nodeSize d.root
  match ← v.resolved? with
  | .sequence p (type :: items) =>
      if p.localName?.isSome then none
      let (contents, _) ← (items.mapM (content? d variantDepth)) budget
      return ⟨← text? ⟨d, type⟩, .listed contents⟩
  | .mapping p entries =>
      if p.localName?.isSome then none
      let ((type, entries), _) ← variantEntries d none entries budget
      return ⟨type, .named entries⟩
  | _ => none

end Value

instance : Source Value where
  text? := Value.text?
  bool? v := v.typed? "bool" >>= Plain.bool?
  word? v := v.typed? "int" >>= Plain.word?
  isNull? := Value.isNull?
  choice? := Value.choice?
  fields? := Value.fields?
  variant? := Value.variant?

end Config.Yaml

end AgentGovernance

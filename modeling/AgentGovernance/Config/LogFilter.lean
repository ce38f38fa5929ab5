import AgentGovernance.Bytes
import AgentGovernance.Config.Pattern

/-!
# Log filters

The log level of a manifest is a list of directives, separated by commas. A directive is a level, or
a target, which may be followed by a span in brackets and, after an equals sign, by a level; the
span may hold a field in braces, whose value is a pattern. Empty directives are skipped.

Blanks may surround a directive unless it has an equals sign. Places in a directive are octets
behind the leading blanks, but the text of a field is taken at these places from the start of the
blanks on.
-/
namespace AgentGovernance

namespace Config

namespace LogFilter

open Instant.Reader (isBlank)

/-- A level is a name in either case or a number up to 5. -/
def isLevel (text : List Char) : Bool :=
  let digits := match text with
    | '+' :: rest => rest
    | cs => cs
  ["error", "warn", "info", "debug", "trace", "off"].contains
    (String.ofList (text.map Char.toLower)) ||
    (Digits.read? 10 digits).any (· ≤ 5)

/-- Whether a text is a number with a plus in front, which is no pattern. -/
def isPositive (text : List Char) : Bool :=
  match text with
  | '+' :: rest =>
      ["inf", "infinity", "nan"].contains (String.ofList (rest.map Char.toLower)) ||
        (Digits.decimal? rest).isSome
  | _ => false

/-- A field is a name, which may be followed by an equals sign and a value; what follows a second
equals sign does not count. -/
def isField (text : String) : Bool :=
  match text.splitOn "=" with
  | _ :: value :: _ => isPositive value.toList || Pattern.isValid value
  | _ => true

/-- Where the reader of a directive stands. -/
inductive Place where
  | start
  /-- In a target, or in a level that stands alone. -/
  | target
  | span
  /-- In a field of a span that starts at a place. -/
  | field (origin : Nat)
  | afterField
  | afterSpan
  /-- In a level, whose text is given backwards. -/
  | level (text : List Char)

/-- Goes over a character at a place in a directive. -/
def Place.step? (directive : Bytes) (p : Place) (place : Nat) (c : Char) : Option Place :=
  match p with
  | .start =>
      if c = '[' then some .span
      else if ['-', ':', '_'].contains c || Alphabet.isAlphanumeric c then some .target
      else none
  | .target => some (if c = '=' then .level [] else if c = '[' then .span else .target)
  | .span =>
      some (if c = ']' then .afterSpan else if c = '\x7b' then .field (place + 1) else .span)
  | .field origin =>
      if c = '\x7d' then do
        let text ← Bytes.toString? ((directive.take place).drop origin)
        if text ≠ "" && isField text then some .afterField else none
      else some (.field origin)
  | .afterField => if c = ']' then some .afterSpan else none
  | .afterSpan => if c = '=' then some (.level []) else none
  | .level text => some (.level (c :: text))

/-- Goes over the characters from a place on. -/
def Place.walk? (directive : Bytes) (p : Place) (place : Nat) : List Char → Option Place
  | [] => some p
  | c :: rest => do
      Place.walk? directive (← p.step? directive place c) (place + c.utf8Size) rest

/-- A directive may end here; a level has to be complete, or missing altogether, and nothing may
surround it. -/
def Place.isFinal (isTrimmed : Bool) : Place → Bool
  | .target | .afterSpan => true
  | .level text => isTrimmed && (text.isEmpty || isLevel text.reverse)
  | _ => false

def trimmed (cs : List Char) : List Char :=
  (((cs.dropWhile isBlank).reverse).dropWhile isBlank).reverse

def isDirective (text : String) : Bool :=
  let cs := trimmed text.toList
  ((Place.start.walk? (.ofString text) 0 cs).map (Place.isFinal (cs = text.toList))).getD false

def isValid (level : String) : Bool :=
  (level.splitOn ",").all fun part => part = "" || isDirective part

def message : String := "Failed to create log filter"

end LogFilter

end Config

end AgentGovernance
